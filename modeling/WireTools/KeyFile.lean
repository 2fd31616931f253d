import WireTools.KeyStore

/-! # The cluster key file

`cluster-keys.json` is the captured payload through a validated codec: `serialize` checks that
every record carries exactly one custody form and prints it, `deserialize` parses the text and
validates it member by member, unknown members dropped.

* `deserialize_serialize`: what is serialized deserializes to itself;
* `keyFile_safe`: the key file of a complete store rehydrates to that store, key material replaced
  by references under SSM (`Reloaded`), and captures the same payload. -/

namespace WireTools

namespace KeyFile

open Json Outcome ClusterState ClusterConfigProvider

/-- The number of a key type in the signing library, as `type` records it. -/
abbrev KeyTypeCode := KeyType → Int

section Codec

variable (code : KeyTypeCode)

/-! ### Writing -/

def integer (i : Int) : Json := .number (Decimal.ofInt i)

/-- The member a curve adds to its record. -/
def extensionFields : (t : KeyType) → KeyPairExtension t → List (String × Option Json)
  | .BLS, proof => [("proofOfPossession", some (.string proof))]
  | .EM, address => [("address", some (.string address))]
  | .K1, _ => []
  | .ED, _ => []

def keyPairFields {t : KeyType} (p : KeyPair t) : List (String × Option Json) :=
  [("type", some (integer (code t))), ("publicKey", some (.string p.publicKey))] ++
    extensionFields t p.extension ++
    [("privateKey", p.privateKey.map .string), ("awsSecretId", p.awsSecretId.map .string)]

/-- A key pair's record, none when it has not exactly one custody form. -/
def encodeKeyPair {t : KeyType} (p : KeyPair t) : Option Json :=
  if hasSingleCustodyForm p then some (objectOf (keyPairFields code p)) else none

/-- The record of a key pair an operator may lack. -/
def encodeKeyPair? {t : KeyType} : Option (KeyPair t) → Option (Option Json)
  | none => some none
  | some p => (encodeKeyPair code p).map some

def encodeNode (n : NodeKeys) : Option Json := do
  let wire ← encodeKeyPair code n.wire
  let wireFinalizer ← encodeKeyPair code n.wireFinalizer
  some (objectOf [("index", some (integer n.index)), ("wire", some wire),
    ("wireFinalizer", some wireFinalizer)])

def encodeOperator (o : ClusterKeysOperatorEntry) : Option Json := do
  let wire ← encodeKeyPair code o.wire
  let wireFinalizer ← encodeKeyPair? code o.wireFinalizer
  let ethereum ← encodeKeyPair? code o.ethereum
  let solana ← encodeKeyPair? code o.solana
  some (objectOf [("label", some (.string o.label)),
    ("publicationLabel", some (.string o.publicationLabel)),
    ("account", some (.string o.account)), ("type", some (integer o.type)),
    ("wire", some wire), ("wireFinalizer", wireFinalizer), ("ethereum", ethereum),
    ("solana", solana)])

def encodeKeys (keys : ClusterKeys) : Option Json := do
  let nodes ← keys.nodes.mapM (encodeNode code)
  let operators ← keys.operators.mapM (encodeOperator code)
  some (objectOf [("nodes", some (.array nodes)), ("operators", some (.array operators))])

/-- The text of the key file. -/
def serialize (keys : ClusterKeys) : Option Text :=
  (encodeKeys code keys).map stringify

/-! ### Reading -/

def asInteger : Json → Option Int
  | .number d => d.toInt?
  | _ => none

def asArray : Json → Option (List Json)
  | .array items => some items
  | _ => none

/-- An optional string member: none when it is present and no string. -/
def optionalString (v : Json) (name : String) : Option (Option Text) :=
  match v.get name with
  | none => some none
  | some m => (asString m).map some

/-- The member a curve adds to its record. -/
def readExtension (v : Json) : (t : KeyType) → Option (KeyPairExtension t)
  | .BLS => (v.get "proofOfPossession").bind asString
  | .EM => (v.get "address").bind asString
  | .K1 => some ()
  | .ED => some ()

/-- A key pair of curve `t`, checked as its schema does. -/
def decodeKeyPair (t : KeyType) (v : Json) : Option (KeyPair t) := do
  let type ← (v.get "type").bind asInteger
  let publicKey ← (v.get "publicKey").bind asString
  let extension ← readExtension v t
  let privateKey ← optionalString v "privateKey"
  let awsSecretId ← optionalString v "awsSecretId"
  let p : KeyPair t := ⟨publicKey, privateKey, awsSecretId, extension⟩
  if type = code t ∧ hasSingleCustodyForm p = true then some p else none

/-- An optional key pair member. -/
def decodeKeyPair? (t : KeyType) : Option Json → Option (Option (KeyPair t))
  | none => some none
  | some v => (decodeKeyPair code t v).map some

def decodeNode (v : Json) : Option NodeKeys := do
  let index ← (v.get "index").bind asInteger
  let wire ← (v.get "wire").bind (decodeKeyPair code .K1)
  let wireFinalizer ← (v.get "wireFinalizer").bind (decodeKeyPair code .BLS)
  some ⟨index, wire, wireFinalizer⟩

def decodeOperator (v : Json) : Option ClusterKeysOperatorEntry := do
  let label ← (v.get "label").bind asString
  let publicationLabel ← (v.get "publicationLabel").bind asString
  let account ← (v.get "account").bind asString
  let type ← (v.get "type").bind asInteger
  let wire ← (v.get "wire").bind (decodeKeyPair code .K1)
  let wireFinalizer ← decodeKeyPair? code .BLS (v.get "wireFinalizer")
  let ethereum ← decodeKeyPair? code .EM (v.get "ethereum")
  let solana ← decodeKeyPair? code .ED (v.get "solana")
  some ⟨label, publicationLabel, account, type, wire, wireFinalizer, ethereum, solana⟩

def decodeKeys (v : Json) : Option ClusterKeys := do
  let nodes ← ((v.get "nodes").bind asArray).bind fun items => items.mapM (decodeNode code)
  let operators ← ((v.get "operators").bind asArray).bind fun items =>
    items.mapM (decodeOperator code)
  some ⟨nodes, operators⟩

/-- The payload a key file's text holds. -/
def deserialize (t : Text) : Option ClusterKeys :=
  (parse t).bind (decodeKeys code)

/-! ### Records read back -/

variable {code}

theorem integral_integer (i : Int) : Integral (integer i) := ⟨i, rfl⟩

theorem asInteger_integer (i : Int) : asInteger (integer i) = some i :=
  Decimal.toInt?_ofInt i

theorem optionalString_of_get {v : Json} {name : String} {s : Option Text}
    (h : v.get name = s.map .string) : optionalString v name = some s := by
  unfold optionalString
  rw [h]
  cases s <;> rfl

/-- The members of a record of curve `t`. -/
def keyPairNames : KeyType → List String
  | .BLS => ["type", "publicKey", "proofOfPossession", "privateKey", "awsSecretId"]
  | .EM => ["type", "publicKey", "address", "privateKey", "awsSecretId"]
  | .K1 => ["type", "publicKey", "privateKey", "awsSecretId"]
  | .ED => ["type", "publicKey", "privateKey", "awsSecretId"]

theorem keyPairFields_nodup (code : KeyTypeCode) {t : KeyType} (p : KeyPair t) :
    ((keyPairFields code p).map fun f => text f.1).Nodup := by
  have hnames : ((keyPairFields code p).map fun f => text f.1) = (keyPairNames t).map text := by
    cases t <;> rfl
  rw [hnames]
  cases t <;> decide

/-- The members of a record are strings and an integer. -/
theorem keyPairFields_integral (code : KeyTypeCode) {t : KeyType} (p : KeyPair t) :
    ∀ f ∈ keyPairFields code p, ∀ v ∈ f.2, Integral v := by
  have hstring : ∀ (s : Option Text), ∀ v ∈ s.map Json.string, Integral v := by
    intro s v hv
    cases s with
    | none => simp at hv
    | some s =>
        obtain rfl : Json.string s = v := by simpa using hv
        exact trivial
  have hextension : ∀ f ∈ extensionFields t p.extension, ∀ v ∈ f.2, Integral v := by
    cases t with
    | K1 => simp [extensionFields]
    | ED => simp [extensionFields]
    | BLS => simp [extensionFields, Integral]
    | EM => simp [extensionFields, Integral]
  intro f hf
  simp only [keyPairFields, List.mem_append, List.mem_cons, List.not_mem_nil, or_false] at hf
  rcases hf with ((rfl | rfl) | hf) | rfl | rfl
  · rintro v ⟨⟩
    exact integral_integer _
  · exact hstring (some p.publicKey)
  · exact hextension f hf
  · exact hstring _
  · exact hstring _

theorem get_keyPair (code : KeyTypeCode) {t : KeyType} (p : KeyPair t) {name : String}
    {v : Option Json} (h : (name, v) ∈ keyPairFields code p) :
    (objectOf (keyPairFields code p)).get name = v :=
  get_objectOf (keyPairFields_nodup code p) h

theorem readExtension_fields (code : KeyTypeCode) {t : KeyType} (p : KeyPair t) :
    readExtension (objectOf (keyPairFields code p)) t = some p.extension := by
  cases t with
  | K1 => rfl
  | ED => rfl
  | BLS =>
      have hproof : ("proofOfPossession", some (.string p.extension)) ∈ keyPairFields code p := by
        simp [keyPairFields, extensionFields]
      rw [readExtension, get_keyPair code p hproof]
      rfl
  | EM =>
      have haddress : ("address", some (.string p.extension)) ∈ keyPairFields code p := by
        simp [keyPairFields, extensionFields]
      rw [readExtension, get_keyPair code p haddress]
      rfl

theorem decodeKeyPair_encode {t : KeyType} {p : KeyPair t} {v : Json}
    (h : encodeKeyPair code p = some v) :
    decodeKeyPair code t v = some p ∧ Integral v := by
  unfold encodeKeyPair at h
  split_ifs at h with hsingle
  obtain rfl := Option.some.inj h
  have htype : ("type", some (integer (code t))) ∈ keyPairFields code p := by
    simp [keyPairFields]
  have hpublic : ("publicKey", some (.string p.publicKey)) ∈ keyPairFields code p := by
    simp [keyPairFields]
  have hprivate : ("privateKey", p.privateKey.map .string) ∈ keyPairFields code p := by
    simp [keyPairFields]
  have hsecret : ("awsSecretId", p.awsSecretId.map .string) ∈ keyPairFields code p := by
    simp [keyPairFields]
  refine ⟨?_, integral_objectOf (keyPairFields_integral code p)⟩
  unfold decodeKeyPair
  rw [get_keyPair code p htype, get_keyPair code p hpublic, readExtension_fields,
    optionalString_of_get (get_keyPair code p hprivate),
    optionalString_of_get (get_keyPair code p hsecret)]
  simp only [Option.bind_some, asInteger_integer, asString, Option.bind_eq_bind, true_and,
    if_pos hsingle]

theorem decodeKeyPair?_encode {t : KeyType} {p : Option (KeyPair t)} {v : Option Json}
    (h : encodeKeyPair? code p = some v) :
    decodeKeyPair? code t v = some p ∧ ∀ w ∈ v, Integral w := by
  cases p with
  | none =>
      obtain rfl : none = v := by simpa [encodeKeyPair?] using h
      exact ⟨rfl, by simp⟩
  | some p =>
      simp only [encodeKeyPair?, Option.map_eq_some_iff] at h
      obtain ⟨w, hw, rfl⟩ := h
      obtain ⟨hdecode, hintegral⟩ := decodeKeyPair_encode hw
      refine ⟨by rw [decodeKeyPair?, hdecode]; rfl, ?_⟩
      rintro _ ⟨⟩
      exact hintegral

theorem decodeNode_encode {n : NodeKeys} {v : Json} (h : encodeNode code n = some v) :
    decodeNode code v = some n ∧ Integral v := by
  simp only [encodeNode, Option.bind_eq_bind, Option.bind_eq_some_iff, Option.some.injEq] at h
  obtain ⟨wire, hwire, finalizer, hfinalizer, rfl⟩ := h
  obtain ⟨hwire, hwireInt⟩ := decodeKeyPair_encode hwire
  obtain ⟨hfinalizer, hfinalizerInt⟩ := decodeKeyPair_encode hfinalizer
  have hnodup : (([("index", some (integer n.index)), ("wire", some wire),
      ("wireFinalizer", some finalizer)] : List (String × Option Json)).map
      fun f => text f.1).Nodup := by
    change (["index", "wire", "wireFinalizer"].map text).Nodup
    decide
  refine ⟨?_, integral_objectOf ?_⟩
  · unfold decodeNode
    rw [get_objectOf hnodup (show ("index", some (integer n.index)) ∈ _ by simp),
      get_objectOf hnodup (show ("wire", some wire) ∈ _ by simp),
      get_objectOf hnodup (show ("wireFinalizer", some finalizer) ∈ _ by simp)]
    simp only [Option.bind_some, asInteger_integer, hwire, hfinalizer, Option.bind_eq_bind]
  · simp only [List.forall_mem_cons, Option.mem_some_iff, forall_eq']
    exact ⟨integral_integer _, hwireInt, hfinalizerInt, by simp⟩

theorem decodeOperator_encode {o : ClusterKeysOperatorEntry} {v : Json}
    (h : encodeOperator code o = some v) : decodeOperator code v = some o ∧ Integral v := by
  simp only [encodeOperator, Option.bind_eq_bind, Option.bind_eq_some_iff, Option.some.injEq] at h
  obtain ⟨wire, hwire, finalizer, hfinalizer, ethereum, hethereum, solana, hsolana, rfl⟩ := h
  obtain ⟨hwire, hwireInt⟩ := decodeKeyPair_encode hwire
  obtain ⟨hfinalizer, hfinalizerInt⟩ := decodeKeyPair?_encode hfinalizer
  obtain ⟨hethereum, hethereumInt⟩ := decodeKeyPair?_encode hethereum
  obtain ⟨hsolana, hsolanaInt⟩ := decodeKeyPair?_encode hsolana
  have hnodup : (([("label", some (.string o.label)),
      ("publicationLabel", some (.string o.publicationLabel)),
      ("account", some (.string o.account)), ("type", some (integer o.type)),
      ("wire", some wire), ("wireFinalizer", finalizer), ("ethereum", ethereum),
      ("solana", solana)] : List (String × Option Json)).map fun f => text f.1).Nodup := by
    change (["label", "publicationLabel", "account", "type", "wire", "wireFinalizer", "ethereum",
      "solana"].map text).Nodup
    decide
  refine ⟨?_, integral_objectOf ?_⟩
  · unfold decodeOperator
    rw [get_objectOf hnodup (show ("label", some (.string o.label)) ∈ _ by simp),
      get_objectOf hnodup (show ("publicationLabel", some (.string o.publicationLabel)) ∈ _ by
        simp),
      get_objectOf hnodup (show ("account", some (.string o.account)) ∈ _ by simp),
      get_objectOf hnodup (show ("type", some (integer o.type)) ∈ _ by simp),
      get_objectOf hnodup (show ("wire", some wire) ∈ _ by simp),
      get_objectOf hnodup (show ("wireFinalizer", finalizer) ∈ _ by simp),
      get_objectOf hnodup (show ("ethereum", ethereum) ∈ _ by simp),
      get_objectOf hnodup (show ("solana", solana) ∈ _ by simp)]
    simp only [Option.bind_some, asInteger_integer, asString, hwire, hfinalizer, hethereum,
      hsolana, Option.bind_eq_bind]
  · simp only [List.forall_mem_cons, Option.mem_some_iff, forall_eq']
    exact ⟨trivial, trivial, trivial, integral_integer _, hwireInt, hfinalizerInt, hethereumInt,
      hsolanaInt, by simp⟩

/-- A list of records reads back item by item. -/
theorem mapM_decode {α : Type} {encode : α → Option Json} {decode : Json → Option α}
    (hinv : ∀ a v, encode a = some v → decode v = some a ∧ Integral v) :
    ∀ {xs : List α} {items : List Json}, xs.mapM encode = some items →
      items.mapM decode = some xs ∧ ∀ v ∈ items, Integral v
  | [], items, h => by
      obtain rfl : [] = items := by simpa using h
      simp
  | x :: xs, items, h => by
      simp only [List.mapM_cons, Option.bind_eq_bind, Option.bind_eq_some_iff, Option.pure_def,
        Option.some.injEq] at h
      obtain ⟨v, hv, items', hitems, rfl⟩ := h
      obtain ⟨hdecode, hintegral⟩ := hinv x v hv
      obtain ⟨hrest, hrestInt⟩ := mapM_decode hinv hitems
      refine ⟨?_, List.forall_mem_cons.2 ⟨hintegral, hrestInt⟩⟩
      simp only [List.mapM_cons, hdecode, hrest, Option.bind_eq_bind, Option.bind_some,
        Option.pure_def]

/-- What is serialized deserializes to itself. -/
theorem deserialize_serialize {keys : ClusterKeys} {t : Text} (h : serialize code keys = some t) :
    deserialize code t = some keys := by
  simp only [serialize, encodeKeys, Option.map_eq_some_iff, Option.bind_eq_bind,
    Option.bind_eq_some_iff, Option.some.injEq] at h
  obtain ⟨_, ⟨nodes, hnodes, operators, hoperators, rfl⟩, rfl⟩ := h
  obtain ⟨hnodes, hnodesInt⟩ := mapM_decode (fun _ _ => decodeNode_encode) hnodes
  obtain ⟨hoperators, hoperatorsInt⟩ := mapM_decode (fun _ _ => decodeOperator_encode) hoperators
  have hnodup : (([("nodes", some (.array nodes)), ("operators", some (.array operators))] :
      List (String × Option Json)).map fun f => text f.1).Nodup := by
    change (["nodes", "operators"].map text).Nodup
    decide
  have hintegral : Integral (objectOf [("nodes", some (.array nodes)),
      ("operators", some (.array operators))]) := by
    apply integral_objectOf
    simp only [List.forall_mem_cons, Option.mem_some_iff, forall_eq']
    exact ⟨integral_array hnodesInt, integral_array hoperatorsInt, by simp⟩
  unfold deserialize decodeKeys
  rw [parse_stringify hintegral, Option.bind_some,
    get_objectOf hnodup (show ("nodes", some (.array nodes)) ∈ _ by simp),
    get_objectOf hnodup (show ("operators", some (.array operators)) ∈ _ by simp)]
  simp only [Option.bind_some, asArray, hnodes, hoperators, Option.bind_eq_bind]

/-! ### Complete stores -/

theorem encodeKeyPair_returns (code : KeyTypeCode) {t : KeyType} {p : KeyPair t}
    (h : hasSingleCustodyForm p = true) : ∃ v, encodeKeyPair code p = some v :=
  ⟨_, if_pos h⟩

theorem encodeKeyPair?_returns (code : KeyTypeCode) {t : KeyType} {p : Option (KeyPair t)}
    (h : ∀ q ∈ p, hasSingleCustodyForm q = true) : ∃ v, encodeKeyPair? code p = some v := by
  cases p with
  | none => exact ⟨none, rfl⟩
  | some p =>
      obtain ⟨v, hv⟩ := encodeKeyPair_returns code (h p rfl)
      exact ⟨some v, by rw [encodeKeyPair?, hv]; rfl⟩

theorem mapM_returns {α : Type} {encode : α → Option Json} : ∀ {xs : List α},
    (∀ x ∈ xs, ∃ v, encode x = some v) → ∃ items, xs.mapM encode = some items
  | [], _ => ⟨[], rfl⟩
  | x :: xs, h => by
      obtain ⟨v, hv⟩ := h x (by simp)
      obtain ⟨items, hitems⟩ := mapM_returns fun x' hx' => h x' (List.mem_cons_of_mem x hx')
      exact ⟨v :: items, by simp [hv, hitems]⟩

end Codec

/-- A store whose keys are all there: every node is planned, every operator has its account, and
every key pair has exactly one custody form. -/
structure Complete (config : ClusterConfig) (store : ClusterKeyStore) : Prop where
  planned : ∀ n ∈ store.nodes, ∃ name, producerNodeName config n.index = some name ∧ name ≠ []
  accounts : ∀ o ∈ store.operators, ∃ account, o.account = some account ∧ account ≠ []
  nodePairs : ∀ n ∈ store.nodes,
    hasSingleCustodyForm n.wire = true ∧ hasSingleCustodyForm n.wireFinalizer = true
  operatorPairs : ∀ o ∈ store.operators, hasSingleCustodyForm o.wire = true ∧
    (∀ p ∈ o.wireFinalizer, hasSingleCustodyForm p = true) ∧
    (∀ p ∈ o.ethereum, hasSingleCustodyForm p = true) ∧
    ∀ p ∈ o.solana, hasSingleCustodyForm p = true

theorem captureNode_returns {config : ClusterConfig} (hr : Renders config) {n : NodeKeys}
    (h : ∃ name, producerNodeName config n.index = some name ∧ name ≠ []) :
    ∃ n', captureNode config n = .ok n' := by
  obtain ⟨name, hname, hempty⟩ := h
  obtain ⟨wire, hwire⟩ := toCustody_returns hr name n.wire
  obtain ⟨finalizer, hfinalizer⟩ := toCustody_returns hr name n.wireFinalizer
  exact ⟨⟨n.index, wire, finalizer⟩,
    captureNode_eq_ok.2 ⟨rfl, name, hname, hempty, hwire, hfinalizer⟩⟩

theorem captureOperator_returns {config : ClusterConfig} (hr : Renders config)
    {o : OperatorAccount} (h : ∃ account, o.account = some account ∧ account ≠ []) :
    ∃ e, captureOperator config o = .ok e := by
  obtain ⟨account, haccount⟩ := h
  obtain ⟨wire, hwire⟩ := toCustody_returns hr o.publicationLabel o.wire
  obtain ⟨finalizer, hfinalizer⟩ := toCustody?_returns hr o.publicationLabel o.wireFinalizer
  obtain ⟨ethereum, hethereum⟩ := toCustody?_returns hr o.publicationLabel o.ethereum
  obtain ⟨solana, hsolana⟩ := toCustody?_returns hr o.publicationLabel o.solana
  exact ⟨⟨o.label, o.publicationLabel, account, o.type, wire, finalizer, ethereum, solana⟩,
    captureOperator_eq_ok.2
      ⟨rfl, rfl, haccount, rfl, hwire, hfinalizer, hethereum, hsolana⟩⟩

theorem captureKeys_returns {config : ClusterConfig} (hr : Renders config)
    {store : ClusterKeyStore} (h : Complete config store) :
    ∃ keys, captureKeys config store = .ok keys := by
  obtain ⟨nodes, hnodes⟩ := except_mapM_returns fun n hn =>
    captureNode_returns hr (h.planned n hn)
  obtain ⟨operators, hoperators⟩ := except_mapM_returns fun o ho =>
    captureOperator_returns hr (h.accounts o ho)
  exact ⟨⟨nodes, operators⟩, by rw [captureKeys, hnodes, hoperators]; rfl⟩

theorem mem_right_forall₂ {α β : Type} {R : α → β → Prop} {b : β} : ∀ {xs : List α} {ys : List β},
    List.Forall₂ R xs ys → b ∈ ys → ∃ a ∈ xs, R a b
  | _, _, .nil, h => absurd h (by simp)
  | _, _, .cons (a := a) hab hs, h => by
      rcases List.mem_cons.1 h with rfl | h
      · exact ⟨a, by simp, hab⟩
      · obtain ⟨a', ha', hab'⟩ := mem_right_forall₂ hs h
        exact ⟨a', List.mem_cons_of_mem _ ha', hab'⟩

/-- The payload of a complete store can be written. -/
theorem serialize_returns (code : KeyTypeCode) {config : ClusterConfig} {store : ClusterKeyStore}
    {keys : ClusterKeys} (h : Complete config store) (hkeys : captureKeys config store = .ok keys) :
    ∃ t, serialize code keys = some t := by
  obtain ⟨hnodes, hoperators⟩ := captureKeys_eq_ok.1 hkeys
  have hnode : ∀ n' ∈ keys.nodes, ∃ v, encodeNode code n' = some v := by
    intro n' hn'
    obtain ⟨n, hn, hcaptured⟩ := mem_right_forall₂ hnodes hn'
    obtain ⟨_, _, _, _, hwire, hfinalizer⟩ := hcaptured
    obtain ⟨hsingle, hsingle'⟩ := h.nodePairs n hn
    obtain ⟨v, hv⟩ := encodeKeyPair_returns code (toCustody_single hwire hsingle)
    obtain ⟨w, hw⟩ := encodeKeyPair_returns code (toCustody_single hfinalizer hsingle')
    exact ⟨_, by rw [encodeNode, hv, hw]; rfl⟩
  have hoperator : ∀ e ∈ keys.operators, ∃ v, encodeOperator code e = some v := by
    intro e he
    obtain ⟨o, ho, hcaptured⟩ := mem_right_forall₂ hoperators he
    obtain ⟨hwire, hfinalizer, hethereum, hsolana⟩ := h.operatorPairs o ho
    obtain ⟨v, hv⟩ := encodeKeyPair_returns code
      (toCustody_single hcaptured.wire hwire)
    obtain ⟨v', hv'⟩ := encodeKeyPair?_returns code
      (toCustody?_single hcaptured.wireFinalizer hfinalizer)
    obtain ⟨w, hw⟩ := encodeKeyPair?_returns code
      (toCustody?_single hcaptured.ethereum hethereum)
    obtain ⟨w', hw'⟩ := encodeKeyPair?_returns code
      (toCustody?_single hcaptured.solana hsolana)
    exact ⟨_, by rw [encodeOperator, hv, hv', hw, hw']; rfl⟩
  obtain ⟨nodes, hnodes⟩ := mapM_returns hnode
  obtain ⟨operators, hoperators⟩ := mapM_returns hoperator
  exact ⟨_, by rw [serialize, encodeKeys, hnodes, hoperators]; rfl⟩

/-- What a pair of the store is after a reload: under SSM the reference to `account`'s key stands
in the place of the key material, under the other providers nothing has changed. -/
structure Reloaded (config : ClusterConfig) {t : KeyType} (account : Text) (p p' : KeyPair t) :
    Prop where
  publicKey : p'.publicKey = p.publicKey
  extension : p'.extension = p.extension
  privateKey : p'.privateKey = if config.signatureProvider = .SSM then none else p.privateKey
  awsSecretId : if config.signatureProvider = .SSM then
      ∃ secretId, ssmSecretId config account t = .ok secretId ∧ p'.awsSecretId = some secretId
    else p'.awsSecretId = p.awsSecretId

theorem reloaded_of_toCustody {config : ClusterConfig} {t : KeyType} {account : Text}
    {p p' : KeyPair t} (h : toCustody config account p = .ok p') :
    Reloaded config account p p' := by
  rw [toCustody_eq_ok] at h
  split_ifs at h with hssm
  · obtain ⟨secretId, hid, rfl⟩ := h
    exact ⟨rfl, rfl, (if_pos hssm).symm, by rw [if_pos hssm]; exact ⟨secretId, hid, rfl⟩⟩
  · subst h
    exact ⟨rfl, rfl, (if_neg hssm).symm, by rw [if_neg hssm]⟩

theorem reloaded_of_toCustody? {config : ClusterConfig} {t : KeyType} {account : Text}
    {p p' : Option (KeyPair t)} (h : toCustody? config account p = .ok p') :
    Option.Rel (Reloaded config account) p p' := by
  rw [toCustody?_eq_ok] at h
  cases h with
  | none => exact .none
  | some hp => exact .some (reloaded_of_toCustody hp)

/-- A node's set after a reload; its references are under the node's name. -/
structure NodeReloaded (config : ClusterConfig) (n n' : NodeKeys) : Prop where
  index : n'.index = n.index
  pairs : ∃ name, producerNodeName config n.index = some name ∧
    Reloaded config name n.wire n'.wire ∧ Reloaded config name n.wireFinalizer n'.wireFinalizer

/-- An operator's record after a reload; its references are under its publication label, and it
has the curves it had. -/
structure OperatorReloaded (config : ClusterConfig) (o o' : OperatorAccount) : Prop where
  label : o'.label = o.label
  publicationLabel : o'.publicationLabel = o.publicationLabel
  account : o'.account = o.account
  type : o'.type = o.type
  wire : Reloaded config o.publicationLabel o.wire o'.wire
  wireFinalizer :
    Option.Rel (Reloaded config o.publicationLabel) o.wireFinalizer o'.wireFinalizer
  ethereum : Option.Rel (Reloaded config o.publicationLabel) o.ethereum o'.ethereum
  solana : Option.Rel (Reloaded config o.publicationLabel) o.solana o'.solana

theorem nodeReloaded_of_captured {config : ClusterConfig} {n n' : NodeKeys}
    (h : NodeCaptured config n n') : NodeReloaded config n n' := by
  obtain ⟨hindex, name, hname, -, hwire, hfinalizer⟩ := h
  exact ⟨hindex, name, hname, reloaded_of_toCustody hwire, reloaded_of_toCustody hfinalizer⟩

theorem operatorReloaded_of_captured {config : ClusterConfig} {o : OperatorAccount}
    {e : ClusterKeysOperatorEntry} (h : OperatorCaptured config o e) :
    OperatorReloaded config o (ofEntry e) where
  label := h.label
  publicationLabel := h.publicationLabel
  account := h.account.1.symm
  type := h.type
  wire := reloaded_of_toCustody h.wire
  wireFinalizer := reloaded_of_toCustody? h.wireFinalizer
  ethereum := reloaded_of_toCustody? h.ethereum
  solana := reloaded_of_toCustody? h.solana

/-- Two relaunches away: what the key file of a store holds, and the store it rehydrates to. -/
structure Reloads (code : KeyTypeCode) (config : ClusterConfig) (store : ClusterKeyStore)
    (keys : ClusterKeys) (t : Text) (fresh : ClusterKeyStore) : Prop where
  captured : captureKeys config store = .ok keys
  saved : serialize code keys = some t
  loaded : deserialize code t = some keys
  rehydrated : fresh = rehydrate .empty keys
  nodes : List.Forall₂ (NodeReloaded config) store.nodes fresh.nodes
  operators : List.Forall₂ (OperatorReloaded config) store.operators fresh.operators
  recaptured : captureKeys config fresh = .ok keys

/-- An SSM key file does not depend on the key material, and every complete store reloads from
its key file. -/
theorem keyFile_safe (code : KeyTypeCode) (config : ClusterConfig) :
    (config.signatureProvider = .SSM → ∀ s s', SamePublic s s' →
      captureKeys config s = captureKeys config s') ∧
    (Renders config → ∀ store, Complete config store →
      ∃ keys t fresh, Reloads code config store keys t fresh) := by
  refine ⟨fun hssm s s' h => captureKeys_samePublic hssm h, fun hr store h => ?_⟩
  obtain ⟨keys, hkeys⟩ := captureKeys_returns hr h
  obtain ⟨t, ht⟩ := serialize_returns code h hkeys
  obtain ⟨hnodes, hoperators, hagain⟩ := rehydrate_captured hkeys
  obtain ⟨hnodeForms, hoperatorForms⟩ := captureKeys_eq_ok.1 hkeys
  refine ⟨keys, t, rehydrate .empty keys, hkeys, ht, deserialize_serialize ht, rfl, ?_, ?_, hagain⟩
  · rw [hnodes]
    exact hnodeForms.imp fun _ _ h => nodeReloaded_of_captured h
  · rw [hoperators, List.forall₂_map_right_iff]
    exact hoperatorForms.imp fun _ _ h => operatorReloaded_of_captured h

/-! ### One SSM cluster -/

/-- One producer on one node, its parameters named after the account and the curve. -/
def ssmConfig : ClusterConfig where
  producerCount := 1
  batchOperatorCount := 1
  underwriterCount := 0
  producerNodeCount := 1
  batchNodeCount := 1
  underwriterNodeCount := 0
  apiNodeCount := 0
  signatureProvider := .SSM
  ssm := some ⟨text "/\x7bcluster\x7d/\x7baccount\x7d/\x7bkeyType\x7d", none, none⟩
  awsClusterNodeConfig := some ⟨text "main", [text "us-east-1"]⟩

/-- A freshly generated key pair. -/
def generatedPair {t : KeyType} (shown secret : String) (extension : KeyPairExtension t) :
    KeyPair t :=
  ⟨text shown, some (text secret), none, extension⟩

/-- A node's set and a batch operator with both outpost curves, its secrets spelled by
`secret`. -/
def ssmStore (secret : String) : ClusterKeyStore where
  nodes := [⟨0, generatedPair "PUB_K1_a" secret (), generatedPair "PUB_BLS_a" secret
    (text "SIG_BLS_a")⟩]
  operators := [⟨text "batchop.a", text "batchop.a", some (text "wireno.xyz"), 2,
    generatedPair "PUB_K1_b" secret (), none, some (generatedPair "PUB_EM_b" secret
      (text "0xb")), some (generatedPair "PUB_ED_b" secret ())⟩]
  labels_nodup := List.nodup_cons.2 ⟨List.not_mem_nil, List.nodup_nil⟩

theorem ssmConfig_renders : Renders ssmConfig := by
  intro _ account keyType
  exact ⟨_, rfl⟩

theorem ssmStore_complete (secret : String) : Complete ssmConfig (ssmStore secret) where
  planned := by
    intro n hn
    obtain rfl := List.mem_singleton.1 hn
    have hname : producerNodeName ssmConfig 0 = some (text "node_00") := by decide
    exact ⟨text "node_00", hname, by decide⟩
  accounts := by
    intro o ho
    obtain rfl := List.mem_singleton.1 ho
    exact ⟨text "wireno.xyz", rfl, by decide⟩
  nodePairs := by
    intro n hn
    obtain rfl := List.mem_singleton.1 hn
    exact ⟨rfl, rfl⟩
  operatorPairs := by
    intro o ho
    obtain rfl := List.mem_singleton.1 ho
    refine ⟨rfl, by simp, ?_, ?_⟩
    · rintro _ ⟨⟩
      rfl
    · rintro _ ⟨⟩
      rfl

theorem samePublic_ssmStore (secret secret' : String) :
    SamePublic (ssmStore secret) (ssmStore secret') := by
  constructor
  · simp [ssmStore, eraseNode, erasePair, generatedPair]
  · simp [ssmStore, eraseOperator, erasePair, generatedPair]

theorem keyFile_safe_ssm :
    captureKeys ssmConfig (ssmStore "PVT_one") = captureKeys ssmConfig (ssmStore "PVT_two") ∧
      ∃ keys t fresh,
        Reloads (fun _ => 0) ssmConfig (ssmStore "PVT_one") keys t fresh :=
  ⟨(keyFile_safe (fun _ => 0) ssmConfig).1 rfl _ _ (samePublic_ssmStore _ _),
    (keyFile_safe (fun _ => 0) ssmConfig).2 ssmConfig_renders _ (ssmStore_complete _)⟩

end KeyFile

end WireTools
