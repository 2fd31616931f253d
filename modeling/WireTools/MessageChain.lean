import Mathlib.Data.List.Induction
import WireTools.EnvelopeInjective
import WireTools.JsonPrint

/-! # The chain of message ids

* `beBytes` and `toBigInt` are inverse on the numbers that fit (`toBigInt_beBytes`);
* `Numbered sequence header`: the message id is the header checksum with the sequence number over
  its first eight bytes, and the sequence number is read off it again (`Numbered.sequence`);
* `deriveChain`: messages in order, each with the id of the one before;
* `parseChainTip` reads what `bytesToHex` has written, with any reader of hexadecimal digits
  (`ReadsHex`).  No id of a chain is all zeros, so none is taken for the start of a stream;
* a chain is numbered from one on, and what is derived from the stored tip of its front is its
  rest (`message_chain`). -/

namespace WireTools.EnvelopeCodec

open Json
open Protobuf (Bytes)

/-! ### Numbers as bytes -/

theorem length_beBytes (width value : ℕ) : (beBytes width value).length = width := by
  rw [beBytes, List.length_map, List.length_range]

theorem beBytes_succ (width value : ℕ) :
    beBytes (width + 1) value = beBytes width (value / 256) ++ [UInt8.ofNat value] := by
  unfold beBytes
  rw [List.range_succ, List.map_append, List.map_singleton, Nat.add_sub_cancel, Nat.sub_self,
    Nat.pow_zero, Nat.div_one]
  refine congrArg (· ++ _) (List.map_congr_left fun i hi => ?_)
  have hi : i < width := List.mem_range.mp hi
  rw [Nat.div_div_eq_div_mul, ← Nat.pow_succ', show (width - 1 - i).succ = width - i by omega]

theorem toBigInt_snoc (bytes : Bytes) (b : UInt8) :
    toBigInt (bytes ++ [b]) = toBigInt bytes * 256 + b.toNat := by
  rw [toBigInt, List.foldl_append, List.foldl_cons, List.foldl_nil]
  rfl

theorem toBigInt_beBytes {width value : ℕ} (h : value < 256 ^ width) :
    toBigInt (beBytes width value) = value := by
  induction width generalizing value with
  | zero => exact (Nat.lt_one_iff.mp h).symm
  | succ width ih =>
      have hfront : value / 256 < 256 ^ width :=
        Nat.div_lt_of_lt_mul (by rwa [← Nat.pow_succ'])
      rw [beBytes_succ, toBigInt_snoc, ih hfront, UInt8.toNat_ofNat']
      omega

theorem toBigInt_zeros {bytes : Bytes} (h : ∀ b ∈ bytes, b = 0) : toBigInt bytes = 0 := by
  induction bytes using List.reverseRecOn with
  | nil => rfl
  | append_singleton bytes b ih =>
      rw [toBigInt_snoc, ih fun c hc => h c (List.mem_append_left _ hc),
        h b (List.mem_append_right _ List.mem_cons_self)]
      rfl

/-! ### Ids -/

/-- The id of a header with a sequence number. -/
structure Numbered (sequence : ℕ) (header : SemanticHeader) : Prop where
  length : header.messageId.length = 32
  front : header.messageId.take 8 = beBytes 8 sequence
  back : header.messageId.drop 8 = header.headerChecksum.drop 8

theorem Numbered.sequence {sequence : ℕ} {header : SemanticHeader} (h : Numbered sequence header)
    (hfits : sequence < 2 ^ 64) : messageSequence header.messageId = sequence := by
  rw [messageSequence, h.length, if_neg (by decide), h.front]
  exact toBigInt_beBytes hfits

/-- Only the empty id is taken for the start of a stream. -/
theorem Numbered.exists_ne_zero {sequence : ℕ} {header : SemanticHeader}
    (h : Numbered sequence header) (hpos : 0 < sequence) (hfits : sequence < 2 ^ 64) :
    ∃ b ∈ header.messageId, b ≠ 0 := by
  by_contra hzero
  have hfront : ∀ b ∈ beBytes 8 sequence, b = 0 := by
    intro b hb
    rw [← h.front] at hb
    exact by_contra fun hb0 => hzero ⟨b, List.mem_of_mem_take hb, hb0⟩
  have hvalue : toBigInt (beBytes 8 sequence) = sequence := toBigInt_beBytes hfits
  rw [toBigInt_zeros hfront] at hvalue
  omega

theorem exists_deriveSemanticHeader (keccak256 : Bytes → Digest) (input : SemanticHeaderInput)
    (h : messageSequence input.previousMessageId + 1 < 2 ^ 64) :
    ∃ header, deriveSemanticHeader keccak256 input = some header ∧
      Numbered (messageSequence input.previousMessageId + 1) header := by
  have hlength : ∀ bytes, (keccakBytes keccak256 bytes).length = 32 :=
    fun bytes => (keccak256 bytes).property
  unfold deriveSemanticHeader deriveMessageId toBeBytes
  rw [if_pos (show _ < 256 ^ 8 from h)]
  refine ⟨_, rfl, ?_, ?_, ?_⟩
  · simp only [List.length_append, List.length_drop, length_beBytes, hlength]
  · exact List.take_left' (length_beBytes _ _)
  · exact List.drop_left' (length_beBytes _ _)

/-! ### Chains -/

/-- What a message has of its own. -/
structure Message where
  version : ℕ
  attestations : List CanonicalAttestation
  timestampMs : ℕ

def Message.after (message : Message) (previousMessageId : Bytes) : SemanticHeaderInput :=
  ⟨message.version, message.attestations, message.timestampMs, previousMessageId⟩

/-- The headers of messages in order, each after the id of the one before. -/
def deriveChain (keccak256 : Bytes → Digest) (previousMessageId : Bytes) :
    List Message → Option (List SemanticHeader)
  | [] => some []
  | message :: messages =>
      (deriveSemanticHeader keccak256 (message.after previousMessageId)).bind fun header =>
        (deriveChain keccak256 header.messageId messages).map fun headers => header :: headers

/-- The last id, the one before where there are no headers. -/
def tip (previousMessageId : Bytes) : List SemanticHeader → Bytes
  | [] => previousMessageId
  | header :: headers => tip header.messageId headers

variable {keccak256 : Bytes → Digest}

theorem deriveChain_append (previousMessageId : Bytes) (first rest : List Message) :
    deriveChain keccak256 previousMessageId (first ++ rest) =
      (deriveChain keccak256 previousMessageId first).bind fun before =>
        (deriveChain keccak256 (tip previousMessageId before) rest).map fun after =>
          before ++ after := by
  induction first generalizing previousMessageId with
  | nil =>
      rw [List.nil_append, deriveChain, Option.bind_some]
      exact Option.map_id'.symm
  | cons message first ih =>
      rw [List.cons_append, deriveChain, deriveChain]
      cases deriveSemanticHeader keccak256 (message.after previousMessageId) with
      | none => rfl
      | some header =>
          rw [Option.bind_some, Option.bind_some, ih, Option.bind_map, Option.map_bind]
          refine congrArg _ (funext fun before => ?_)
          rw [Function.comp_apply, Option.map_map]
          rfl

/-- A chain is numbered on from where it starts. -/
theorem exists_deriveChain (keccak256 : Bytes → Digest) {previousMessageId : Bytes}
    {messages : List Message}
    (h : messageSequence previousMessageId + messages.length < 2 ^ 64) :
    ∃ headers, deriveChain keccak256 previousMessageId messages = some headers ∧
      headers.length = messages.length ∧
      ∀ k header, headers[k]? = some header →
        Numbered (messageSequence previousMessageId + k + 1) header := by
  induction messages generalizing previousMessageId with
  | nil => exact ⟨[], rfl, rfl, fun k header hk => by cases hk⟩
  | cons message messages ih =>
      rw [List.length_cons] at h
      obtain ⟨first, hfirst, hnumbered⟩ := exists_deriveSemanticHeader keccak256
        (message.after previousMessageId) (show messageSequence previousMessageId + 1 < _ by omega)
      have hsequence : messageSequence first.messageId = messageSequence previousMessageId + 1 :=
        hnumbered.sequence (show messageSequence previousMessageId + 1 < _ by omega)
      have hroom : messageSequence first.messageId + messages.length < 2 ^ 64 := by omega
      obtain ⟨headers, hheaders, hlength, hrest⟩ := ih hroom
      refine ⟨first :: headers, ?_, congrArg Nat.succ hlength, fun k header hk => ?_⟩
      · rw [deriveChain, hfirst, Option.bind_some, hheaders, Option.map_some]
      · cases k with
        | zero =>
            cases hk
            exact hnumbered
        | succ k =>
            have hnext := hrest k header hk
            rwa [hsequence, Nat.add_right_comm _ 1 k] at hnext

theorem tip_eq (previousMessageId : Bytes) (headers : List SemanticHeader) :
    (headers = [] ∧ tip previousMessageId headers = previousMessageId) ∨
      ∃ header ∈ headers, tip previousMessageId headers = header.messageId := by
  induction headers generalizing previousMessageId with
  | nil => exact Or.inl ⟨rfl, rfl⟩
  | cons header headers ih =>
      refine Or.inr ?_
      rcases ih header.messageId with ⟨_, hown⟩ | ⟨last, hmem, hlast⟩
      · exact ⟨header, List.mem_cons_self, hown⟩
      · exact ⟨last, List.mem_cons_of_mem _ hmem, hlast⟩

/-! ### Stored tips -/

def bytesToHex (bytes : Bytes) : Text :=
  bytes.flatMap fun b => [hexDigit (b.toNat / 16), hexDigit (b.toNat % 16)]

def zeroX : Text := text "0x"

/-- The argument `getBytes` reads the bytes of a text of hexadecimal digits and throws on others;
an empty text is as good as none. -/
def parseChainTip (getBytes : Text → Option Bytes) (raw : Option Text) : Option Bytes :=
  match raw with
  | none => some []
  | some raw =>
      if raw = [] then some []
      else
        let hex := if zeroX.isPrefixOf raw then raw.drop 2 else raw
        if hex.length = 0 || hex.all fun c => c = 48 then some []
        else getBytes (zeroX ++ hex)

/-- Two hexadecimal digits a byte, in either case. -/
def hexBytes : Text → Option Bytes
  | [] => some []
  | [_] => none
  | c :: d :: digits =>
      (hexValue c).bind fun high =>
        (hexValue d).bind fun low =>
          (hexBytes digits).map fun bytes => UInt8.ofNat (high * 16 + low) :: bytes

/-- What the documentation of `ethers.getBytes` says of a text of hexadecimal digits. -/
def ReadsHex (getBytes : Text → Option Bytes) : Prop :=
  ∀ digits bytes, hexBytes digits = some bytes → getBytes (zeroX ++ digits) = some bytes

/-- The ways a tip is stored: none and zeros of any number at the start of a stream, else its
digits, and the prefix in front of them or not. -/
inductive Stored : Bytes → Option Text → Prop where
  | absent : Stored [] none
  | zeros (n : ℕ) : Stored [] (some (List.replicate n 48))
  | prefixedZeros (n : ℕ) : Stored [] (some (zeroX ++ List.replicate n 48))
  | hex (id : Bytes) : Stored id (some (bytesToHex id))
  | prefixedHex (id : Bytes) : Stored id (some (zeroX ++ bytesToHex id))

theorem hexBytes_bytesToHex (bytes : Bytes) : hexBytes (bytesToHex bytes) = some bytes := by
  induction bytes with
  | nil => rfl
  | cons b bytes ih =>
      have hb : b.toNat < 256 := b.toNat_lt
      have hbyte : UInt8.ofNat (b.toNat / 16 * 16 + b.toNat % 16) = b := by
        rw [Nat.div_add_mod' b.toNat 16, UInt8.ofNat_toNat]
      rw [bytesToHex, List.flatMap_cons, ← bytesToHex]
      simp only [List.cons_append, List.nil_append, hexBytes]
      rw [hexValue_hexDigit _ (by omega), hexValue_hexDigit _ (by omega), ih, Option.bind_some,
        Option.bind_some, Option.map_some, hbyte]

theorem hexDigit_eq_zero : ∀ d < 16, hexDigit d = 48 → d = 0 := by
  decide

theorem hexDigit_ne_x : ∀ d < 16, hexDigit d ≠ 120 := by
  decide

/-- The digits of bytes do not start with the prefix. -/
theorem not_prefix_bytesToHex (bytes : Bytes) : ¬zeroX.isPrefixOf (bytesToHex bytes) = true := by
  cases bytes with
  | nil => exact Bool.false_ne_true
  | cons b bytes =>
      intro hprefix
      have hzeroX : zeroX = [48, 120] := rfl
      rw [List.isPrefixOf_iff_prefix, hzeroX, bytesToHex, List.flatMap_cons, List.cons_append,
        List.cons_append, List.cons_prefix_cons, List.cons_prefix_cons] at hprefix
      exact hexDigit_ne_x _ (Nat.mod_lt _ (by decide)) hprefix.2.1.symm

theorem not_zeros_bytesToHex {bytes : Bytes} (h : ∃ b ∈ bytes, b ≠ 0) :
    ¬(bytesToHex bytes).all (fun c => c = 48) = true := by
  intro hall
  obtain ⟨b, hb, hb0⟩ := h
  have hdigit : ∀ c ∈ [hexDigit (b.toNat / 16), hexDigit (b.toNat % 16)], c = 48 := fun c hc =>
    of_decide_eq_true (List.all_eq_true.mp hall c (List.mem_flatMap.mpr ⟨b, hb, hc⟩))
  have hlt : b.toNat < 256 := b.toNat_lt
  have hhigh := hexDigit_eq_zero _ (by omega) (hdigit _ List.mem_cons_self)
  have hlow := hexDigit_eq_zero _ (by omega) (hdigit _ (List.mem_cons_of_mem _ List.mem_cons_self))
  refine hb0 (UInt8.toNat_inj.mp ?_)
  show b.toNat = 0
  omega

variable {getBytes : Text → Option Bytes}

theorem parseChainTip_prefixed (getBytes : Text → Option Bytes) (digits : Text) :
    parseChainTip getBytes (some (zeroX ++ digits)) =
      if digits.all fun c => c = 48 then some [] else getBytes (zeroX ++ digits) := by
  have hprefix : zeroX.isPrefixOf (zeroX ++ digits) = true :=
    List.isPrefixOf_iff_prefix.mpr (List.prefix_append _ _)
  have hdrop : (zeroX ++ digits).drop 2 = digits := rfl
  unfold parseChainTip
  dsimp only
  rw [if_neg (show ¬zeroX ++ digits = [] from nofun), hprefix, if_pos rfl, hdrop]
  cases digits with
  | nil => rfl
  | cons c digits => rfl

theorem parseChainTip_plain (getBytes : Text → Option Bytes) {digits : Text}
    (h : ¬zeroX.isPrefixOf digits = true) :
    parseChainTip getBytes (some digits) =
      if digits.all fun c => c = 48 then some [] else getBytes (zeroX ++ digits) := by
  cases digits with
  | nil => rfl
  | cons c digits =>
      unfold parseChainTip
      dsimp only
      rw [if_neg (List.cons_ne_nil _ _), if_neg h]
      rfl

/-- The ids that are stored: none, and those that are not all zeros. -/
theorem parseChainTip_stored (hread : ReadsHex getBytes) {id : Bytes} {raw : Option Text}
    (h : Stored id raw) (hid : id = [] ∨ ∃ b ∈ id, b ≠ 0) :
    parseChainTip getBytes raw = some id := by
  have hzeros : ∀ n, (List.replicate n (48 : CodeUnit)).all (fun c => c = 48) = true := by
    intro n
    exact List.all_eq_true.mpr fun c hc => decide_eq_true (List.mem_replicate.mp hc).2
  have hdigits : (if (bytesToHex id).all fun c => c = 48 then some []
      else getBytes (zeroX ++ bytesToHex id)) = some id := by
    rcases hid with rfl | hid
    · rfl
    · rw [if_neg (not_zeros_bytesToHex hid)]
      exact hread _ _ (hexBytes_bytesToHex id)
  cases h with
  | absent => rfl
  | zeros n =>
      rw [parseChainTip_plain, if_pos (hzeros n)]
      intro hprefix
      have hmem : (120 : CodeUnit) ∈ List.replicate n 48 :=
        (List.isPrefixOf_iff_prefix.mp hprefix).subset (by decide)
      exact absurd (List.mem_replicate.mp hmem).2 (by decide)
  | prefixedZeros n => rw [parseChainTip_prefixed, if_pos (hzeros n)]
  | hex => rw [parseChainTip_plain _ (not_prefix_bytesToHex id), hdigits]
  | prefixedHex => rw [parseChainTip_prefixed, hdigits]

/-! ### The whole chain -/

theorem messageSequence_nil : messageSequence [] = 0 :=
  rfl

/-- Fewer than 2^64 messages, each after the id of the one before: the ids are numbered and
distinct, every stored id is read back, and a chain that goes on from a stored tip is the rest of
the chain. -/
theorem message_chain (hread : ReadsHex getBytes) {messages : List Message}
    (h : messages.length < 2 ^ 64) :
    ∃ headers, deriveChain keccak256 [] messages = some headers ∧
      headers.length = messages.length ∧
      (∀ k header, headers[k]? = some header → Numbered (k + 1) header) ∧
      (headers.map SemanticHeader.messageId).Nodup ∧
      (∀ header ∈ headers, ∀ raw, Stored header.messageId raw →
        parseChainTip getBytes raw = some header.messageId) ∧
      (∀ raw, Stored [] raw → parseChainTip getBytes raw = some []) ∧
      ∀ first rest, messages = first ++ rest →
        ∃ before after, headers = before ++ after ∧
          deriveChain keccak256 [] first = some before ∧
          ∀ raw, Stored (tip [] before) raw →
            (parseChainTip getBytes raw).bind (fun previousMessageId =>
              deriveChain keccak256 previousMessageId rest) = some after := by
  have hroom : messageSequence [] + messages.length < 2 ^ 64 := by
    rw [messageSequence_nil]
    omega
  obtain ⟨headers, hheaders, hlength, hnumbered⟩ := exists_deriveChain keccak256 hroom
  simp only [messageSequence_nil, Nat.zero_add] at hnumbered
  have hfits : ∀ {k header}, headers[k]? = some header → k + 1 < 2 ^ 64 := by
    intro k header hk
    have := (List.getElem?_eq_some_iff.mp hk).1
    omega
  have hstored : ∀ header ∈ headers, ∀ raw, Stored header.messageId raw →
      parseChainTip getBytes raw = some header.messageId := by
    intro header hmem raw hraw
    obtain ⟨k, hk⟩ := List.mem_iff_getElem?.mp hmem
    exact parseChainTip_stored hread hraw
      (Or.inr ((hnumbered k header hk).exists_ne_zero (Nat.succ_pos k) (hfits hk)))
  refine ⟨headers, hheaders, hlength, hnumbered, ?_, hstored,
    fun raw hraw => parseChainTip_stored hread hraw (Or.inl rfl), fun first rest hsplit => ?_⟩
  · rw [List.Nodup, List.pairwise_map, List.pairwise_iff_getElem]
    intro i j hi hj hij heq
    have hki := List.getElem?_eq_getElem hi
    have hkj := List.getElem?_eq_getElem hj
    have hsequence := (hnumbered i _ hki).sequence (hfits hki)
    rw [heq, (hnumbered j _ hkj).sequence (hfits hkj)] at hsequence
    omega
  · subst hsplit
    rw [deriveChain_append] at hheaders
    obtain ⟨before, hbefore, hheaders⟩ := Option.bind_eq_some_iff.mp hheaders
    obtain ⟨after, hafter, rfl⟩ := Option.map_eq_some_iff.mp hheaders
    refine ⟨before, after, rfl, hbefore, fun raw hraw => ?_⟩
    have htip : parseChainTip getBytes raw = some (tip [] before) := by
      rcases tip_eq [] before with ⟨_, htip⟩ | ⟨header, hmem, htip⟩
      · rw [htip] at hraw ⊢
        exact parseChainTip_stored hread hraw (Or.inl rfl)
      · rw [htip] at hraw ⊢
        exact hstored header (List.mem_append_left _ hmem) raw hraw
    rw [htip, Option.bind_some]
    exact hafter

/-- A reader of hexadecimal digits behind the prefix. -/
def getHexBytes (t : Text) : Option Bytes :=
  if zeroX.isPrefixOf t then hexBytes (t.drop 2) else none

theorem readsHex_getHexBytes : ReadsHex getHexBytes := by
  intro digits bytes h
  have hprefix : zeroX.isPrefixOf (zeroX ++ digits) = true :=
    List.isPrefixOf_iff_prefix.mpr (List.prefix_append _ _)
  rw [getHexBytes, if_pos hprefix]
  exact h

def messageA : Message := ⟨1, vectorA.attestations, vectorA.timestampMs⟩

def messageB : Message := ⟨1, vectorB.attestations, vectorB.timestampMs⟩

theorem message_chain_golden : ∃ headers,
    deriveChain goldenKeccak [] [messageA, messageB] = some headers ∧
      headers.length = 2 ∧ (headers.map SemanticHeader.messageId).Nodup ∧
      ∃ before after, headers = before ++ after ∧
        deriveChain goldenKeccak [] [messageA] = some before ∧
        (parseChainTip getHexBytes (some (zeroX ++ bytesToHex (tip [] before)))).bind
          (fun previousMessageId => deriveChain goldenKeccak previousMessageId [messageB]) =
            some after := by
  have hfew : [messageA, messageB].length < 2 ^ 64 := by decide
  obtain ⟨headers, hheaders, hlength, _, hnodup, _, _, hresume⟩ :=
    message_chain readsHex_getHexBytes hfew
  obtain ⟨before, after, hsplit, hbefore, hafter⟩ := hresume [messageA] [messageB] rfl
  exact ⟨headers, hheaders, hlength, hnodup, before, after, hsplit, hbefore,
    hafter _ (Stored.prefixedHex _)⟩

end WireTools.EnvelopeCodec
