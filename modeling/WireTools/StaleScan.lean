import WireTools.OperatorNumbers
import WireTools.Outcome
import WireTools.PortBindings

/-! # The scan for stale bindings

The part of the check of an emitted cluster that looks for a port or an address of the local
binding which the external binding does not use.

* `stalePorts`, `staleAddresses`: what must be gone; `range` is lodash's;
* `scan`: the files in order, in each the ports and then the addresses;
* `Occurrence`: a word with what stands before and behind it.  `PortOfEndpoint`, `UnchosenNumber`
  and `HostToken` are the places where a stale one must not stand (`Clean`);
* a word is overlooked where a colon stands beside an address, or where the mask takes a digit of
  it.  At any other of these places the scan sees it (`seen_port`, `seen_number`, `seen_address`);
* `verify_sound_iff`: what passes is clean, just where nothing is overlooked or something is seen. -/

namespace WireTools.ExternalConfig

open Outcome (except_bind_eq_ok except_forM_eq_ok)

/-! ### What must be gone -/

/-- The bind addresses of the daemons, and the advertise addresses of the nodes. -/
def bindAddresses (bind : BindConfig) : List String :=
  let nodeopPorts := bind.nodeop.ports
  let advertiseAddresses :=
    ([nodeopPorts.bios] ++ nodeopPorts.producers ++ nodeopPorts.batch ++
      nodeopPorts.underwriters ++ nodeopPorts.api ++ nodeopPorts.adHoc).filterMap
        BindConfigNodeopPorts.advertiseAddress
  [bind.kiod.address, bind.nodeop.address, bind.anvil.address, bind.solana.address,
    bind.debuggingServer.address] ++ advertiseAddresses

/-- Every port of a binding, for any `range`. -/
def portsBy (range : ℕ → ℕ → List ℕ) (config : BindConfig) : List ℕ :=
  (addressedPortsBy range config).flatMap AddressedPorts.ports

def stalePorts (range : ℕ → ℕ → List ℕ) (localBind externalBind : BindConfig) : List ℕ :=
  (portsBy range localBind).filter fun port => !(portsBy range externalBind).contains port

def staleAddresses (localBind externalBind : BindConfig) : List String :=
  (bindAddresses localBind).filter fun address => !(bindAddresses externalBind).contains address

/-! ### The scan -/

/-- `[0-9a-fA-F]`. -/
def isHexUnit : UnitClass := fun c =>
  isDigit c || (97 ≤ c && c ≤ 102) || (65 ≤ c && c ≤ 70)

/-- `[0-9A-Za-z.:]`. -/
def isAddressUnit : UnitClass := fun c =>
  isDigit c || isUpper c || isLower c || c == 46 || c == 58

def containsPort (t : Text) (port : ℕ) : Bool :=
  stands isHexUnit (natText port) none t

def containsAddress (t : Text) (address : String) : Bool :=
  stands isAddressUnit (text address) none t

structure ScannedFile where
  path : String
  content : Text

section scan
variable (ports : List ℕ) (addresses : List String)

def scanFile (file : ScannedFile) : Except String PUnit := do
  let masked := maskOperatorChosenNumbers file.content
  ports.forM fun port =>
    if containsPort masked port then
      throw ("create-external-config: " ++ file.path ++ " still contains the local bind port " ++
        toString port)
    else pure ()
  addresses.forM fun address =>
    if containsAddress masked address then
      throw ("create-external-config: " ++ file.path ++ " still contains the local bind address " ++
        address)
    else pure ()

/-- One of the words stands free in the text, the operator-chosen numbers left out. -/
def Seen (t : Text) : Prop :=
  (∃ port ∈ ports, containsPort (maskOperatorChosenNumbers t) port = true) ∨
    ∃ address ∈ addresses, containsAddress (maskOperatorChosenNumbers t) address = true

theorem check_eq_ok {b : Bool} {e : String} :
    (if b then throw e else pure () : Except String PUnit) = .ok () ↔ b = false := by
  cases b with
  | false => exact ⟨fun _ => rfl, fun _ => rfl⟩
  | true => exact ⟨nofun, nofun⟩

variable {ports addresses}

theorem scanFile_ok_iff {file : ScannedFile} :
    scanFile ports addresses file = .ok () ↔ ¬Seen ports addresses file.content := by
  unfold scanFile
  simp only [except_bind_eq_ok, except_forM_eq_ok, check_eq_ok]
  rw [Seen, not_or, not_exists, not_exists]
  constructor
  · rintro ⟨_, hports, haddresses⟩
    exact ⟨fun port h => by simp [hports port h.1] at h,
      fun address h => by simp [haddresses address h.1] at h⟩
  · rintro ⟨hports, haddresses⟩
    exact ⟨(), fun port hport => Bool.of_not_eq_true fun h => hports port ⟨hport, h⟩,
      fun address haddress => Bool.of_not_eq_true fun h => haddresses address ⟨haddress, h⟩⟩

end scan

/-- The scan of the emitted files for the local binding. -/
def scan (range : ℕ → ℕ → List ℕ) (localBind externalBind : BindConfig)
    (files : List ScannedFile) : Except String PUnit :=
  files.forM (scanFile (stalePorts range localBind externalBind)
    (staleAddresses localBind externalBind))

/-! ### Places of a word -/

/-- `\w`, a dash or a dot. -/
def isHostUnit : UnitClass := fun c => isWord c || c == 45 || c == 46

/-- The host `w` goes on; a colon does this only where `w` has colons itself. -/
def hostGoesOn (w : Text) : UnitClass := fun c => isHostUnit c || (c == 58 && w.contains 58)

/-- A place of the word `w` in the text `t`. -/
structure Occurrence (w t : Text) where
  before : Text
  after : Text
  split : t = before ++ w ++ after

namespace Occurrence
variable {w t : Text} (o : Occurrence w t)

/-- Behind an address and a colon, and the number ends there.  An address may end in a bracket, in a
colon or in a star. -/
def PortOfEndpoint : Prop :=
  (∃ front c, o.before = front ++ [c, 58] ∧ (isHostUnit c || [93, 58, 42].contains c) = true) ∧
    o.after.head?.any isWord = false

/-- A whole number that is no setting's value. -/
def UnchosenNumber : Prop :=
  o.before.getLast?.any isWord = false ∧ o.after.head?.any isWord = false ∧
    ¬OperatorChosen o.before

/-- A whole host: alone, behind a scheme, before a port. -/
def HostToken : Prop :=
  o.before.getLast?.any (hostGoesOn w) = false ∧ o.after.head?.any (hostGoesOn w) = false

def BesideColon : Prop :=
  o.before.getLast? = some 58 ∨ o.after.head? = some 58

/-- The mask takes a unit of the word. -/
def Masked : Prop :=
  ∃ item ∈ ((marked t).drop o.before.length).take w.length, item.2 = true

/-- Where the mask leaves the word as it is, the scan sees a free one. -/
theorem seen {hostile : UnitClass} (hdigits : ∀ c, isDigit c = true → hostile c = true)
    (hmasked : ¬o.Masked) (hbefore : o.before.getLast?.any hostile = false)
    (hafter : o.after.head?.any hostile = false) :
    stands hostile w none (maskOperatorChosenNumbers t) = true := by
  refine stands_kept ?_ ((map_marked t).trans o.split) ?_ hbefore hafter
  · intro item hitem hmark
    exact hdigits item.1 (digit_of_marked hitem hmark)
  · intro item hitem
    exact Bool.of_not_eq_true fun hmark => hmasked ⟨item, hitem, hmark⟩

end Occurrence

/-! ### What the scan sees -/

theorem any_of_subclass {p q : UnitClass} (h : ∀ c, p c = true → q c = true)
    {c : Option CodeUnit} (hc : c.any q = false) : c.any p = false := by
  cases c with
  | none => rfl
  | some c => exact Bool.of_not_eq_true fun hp => Bool.eq_false_iff.mp hc (h c hp)

theorem isHexUnit_of_isDigit (c : CodeUnit) (h : isDigit c = true) : isHexUnit c = true := by
  rw [isHexUnit, h]
  rfl

theorem isAddressUnit_of_isDigit (c : CodeUnit) (h : isDigit c = true) :
    isAddressUnit c = true := by
  rw [isAddressUnit, h]
  rfl

theorem isWord_of_isDigit (c : CodeUnit) (h : isDigit c = true) : isWord c = true := by
  rw [isWord, h]
  rfl

theorem isWord_of_isHexUnit (c : CodeUnit) (h : isHexUnit c = true) : isWord c = true := by
  simp only [isHexUnit, isWord, isUpper, isLower, Bool.or_eq_true, Bool.and_eq_true,
    decide_eq_true_eq] at h ⊢
  rcases h with (hdigit | hlower) | hupper
  · exact Or.inl (Or.inl (Or.inl hdigit))
  · exact Or.inl (Or.inr ⟨hlower.1, UInt16.le_trans hlower.2 (by decide)⟩)
  · exact Or.inl (Or.inl (Or.inr ⟨hupper.1, UInt16.le_trans hupper.2 (by decide)⟩))

theorem not_isAddressUnit {w : Text} {c : Option CodeUnit} (h : c.any (hostGoesOn w) = false)
    (hcolon : c ≠ some 58) : c.any isAddressUnit = false := by
  cases c with
  | none => rfl
  | some c =>
      refine Bool.of_not_eq_true fun haddress => ?_
      have hc : c ≠ 58 := fun heq => hcolon (congrArg some heq)
      simp only [Option.any_some, isAddressUnit, hostGoesOn, isHostUnit, isWord, Bool.or_eq_true,
        Bool.or_eq_false_iff, beq_iff_eq] at h haddress
      rcases haddress with (((hdigit | hupper) | hlower) | hdot) | heq
      · simp [hdigit] at h
      · simp [hupper] at h
      · simp [hlower] at h
      · simp [hdot] at h
      · exact hc heq

variable {t : Text}

theorem seen_port {port : ℕ} (o : Occurrence (natText port) t) (h : o.PortOfEndpoint)
    (hmasked : ¬o.Masked) : containsPort (maskOperatorChosenNumbers t) port = true := by
  obtain ⟨⟨front, c, hbefore, _⟩, hafter⟩ := h
  refine o.seen isHexUnit_of_isDigit hmasked ?_ (any_of_subclass isWord_of_isHexUnit hafter)
  rw [hbefore, List.getLast?_append_of_ne_nil _ (List.cons_ne_nil _ _)]
  rfl

/-- A whole number that no setting introduces is never masked. -/
theorem seen_number {port : ℕ} (o : Occurrence (natText port) t) (h : o.UnchosenNumber) :
    containsPort (maskOperatorChosenNumbers t) port = true := by
  obtain ⟨hbefore, hafter, hchosen⟩ := h
  have hmasked : ¬o.Masked := by
    rintro ⟨item, hitem, hmark⟩
    have hkept := number_unmarked o.split (Json.natText_isDigit port)
      (any_of_subclass isWord_of_isDigit hbefore) hchosen item hitem
    rw [hmark] at hkept
    cases hkept
  exact o.seen isHexUnit_of_isDigit hmasked (any_of_subclass isWord_of_isHexUnit hbefore)
    (any_of_subclass isWord_of_isHexUnit hafter)

theorem seen_address {address : String} (o : Occurrence (text address) t) (h : o.HostToken)
    (hcolon : ¬o.BesideColon) (hmasked : ¬o.Masked) :
    containsAddress (maskOperatorChosenNumbers t) address = true := by
  obtain ⟨hbefore, hafter⟩ := not_or.mp hcolon
  exact o.seen isAddressUnit_of_isDigit hmasked (not_isAddressUnit h.1 hbefore)
    (not_isAddressUnit h.2 hafter)

/-! ### What passes -/

section clean
variable (ports : List ℕ) (addresses : List String)

/-- No stale port or address stands where it must not. -/
def Clean (t : Text) : Prop :=
  (∀ port ∈ ports, ∀ o : Occurrence (natText port) t, ¬o.PortOfEndpoint ∧ ¬o.UnchosenNumber) ∧
    ∀ address ∈ addresses, ∀ o : Occurrence (text address) t, ¬o.HostToken

/-- The mask takes no digit of an endpoint's port or of a host, and no colon is beside a host. -/
def NothingOverlooked (t : Text) : Prop :=
  (∀ port ∈ ports, ∀ o : Occurrence (natText port) t, o.PortOfEndpoint → ¬o.Masked) ∧
    ∀ address ∈ addresses, ∀ o : Occurrence (text address) t, o.HostToken →
      ¬o.BesideColon ∧ ¬o.Masked

variable {ports addresses}

theorem NothingOverlooked.of_clean (h : Clean ports addresses t) :
    NothingOverlooked ports addresses t :=
  ⟨fun port hport o ho => absurd ho (h.1 port hport o).1,
    fun address haddress o ho => absurd ho (h.2 address haddress o)⟩

theorem NothingOverlooked.clean (h : NothingOverlooked ports addresses t)
    (hseen : ¬Seen ports addresses t) : Clean ports addresses t := by
  refine ⟨fun port hport o => ⟨fun ho => ?_, fun ho => ?_⟩, fun address haddress o ho => ?_⟩
  · exact hseen (Or.inl ⟨port, hport, seen_port o ho (h.1 port hport o ho)⟩)
  · exact hseen (Or.inl ⟨port, hport, seen_number o ho⟩)
  · obtain ⟨hcolon, hmasked⟩ := h.2 address haddress o ho
    exact hseen (Or.inr ⟨address, haddress, seen_address o ho hcolon hmasked⟩)

end clean

section verify
variable (range : ℕ → ℕ → List ℕ) (localBind externalBind : BindConfig)
  (files : List ScannedFile)

theorem scan_ok_iff : scan range localBind externalBind files = .ok () ↔
    ∀ file ∈ files, ¬Seen (stalePorts range localBind externalBind)
      (staleAddresses localBind externalBind) file.content := by
  rw [scan, except_forM_eq_ok]
  exact forall₂_congr fun _ _ => scanFile_ok_iff

/-- What passes the scan is clean, just where nothing is overlooked or something is seen. -/
theorem verify_sound_iff :
    (scan range localBind externalBind files = .ok () →
        ∀ file ∈ files, Clean (stalePorts range localBind externalBind)
          (staleAddresses localBind externalBind) file.content) ↔
      (∀ file ∈ files, NothingOverlooked (stalePorts range localBind externalBind)
        (staleAddresses localBind externalBind) file.content) ∨
      ∃ file ∈ files, Seen (stalePorts range localBind externalBind)
        (staleAddresses localBind externalBind) file.content := by
  rw [scan_ok_iff]
  constructor
  · intro h
    by_cases hseen : ∃ file ∈ files, Seen (stalePorts range localBind externalBind)
        (staleAddresses localBind externalBind) file.content
    · exact Or.inr hseen
    · refine Or.inl fun file hfile => .of_clean (h (fun other hother hit => ?_) file hfile)
      exact hseen ⟨other, hother, hit⟩
  · rintro (hnothing | ⟨file, hfile, hseen⟩) hpasses
    · exact fun file hfile => (hnothing file hfile).clean (hpasses file hfile)
    · exact absurd hseen (hpasses file hfile)

end verify

/-- Every daemon on one host, the ports the same for every host. -/
def everyDaemonAt (address : String) : BindConfig where
  kiod := ⟨address, 8900⟩
  nodeop := ⟨address, ⟨⟨8888, 9876, none⟩, [], [], [], [], []⟩⟩
  anvil := ⟨address, 8545⟩
  solana := ⟨address, ⟨8899, 9900, 9001, ⟨12000, 12003⟩⟩⟩
  debuggingServer := ⟨address, 3000⟩

def staleEndpoint : ScannedFile := ⟨"cluster-config.json", text "http://10.0.0.5:8888"⟩

theorem stale_endpoint_passes :
    scan (fun first stop => List.range' first (stop - first)) (everyDaemonAt "10.0.0.5")
        (everyDaemonAt "10.1.0.7") [staleEndpoint] = .ok () ∧
      ¬Clean (stalePorts (fun first stop => List.range' first (stop - first))
          (everyDaemonAt "10.0.0.5") (everyDaemonAt "10.1.0.7"))
        (staleAddresses (everyDaemonAt "10.0.0.5") (everyDaemonAt "10.1.0.7"))
        staleEndpoint.content := by
  refine ⟨by decide, fun hclean => ?_⟩
  let place : Occurrence (text "10.0.0.5") staleEndpoint.content :=
    ⟨text "http://", text ":8888", by decide⟩
  exact hclean.2 "10.0.0.5" (by decide) place ⟨by decide, by decide⟩

end WireTools.ExternalConfig
