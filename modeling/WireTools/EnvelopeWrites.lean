import WireTools.EnvelopeStore

/-! # What requests do to the files

* `Move`: what one call of a request can do, and `advance_cases`, that it does one of these;
* `Effect`: what a move does to the files; it opens a file, writes a piece, closes the file, or
  leaves all files alone;
* `Kept`: every file is the front of what one request is writing, or what one has written.  It is
  kept while no two requests write a file at once (`Kept.step`), and what has been written stays
  written (`wrote_step`). -/

namespace WireTools.EnvelopeStorage

open Files
open Protobuf (Bytes)

variable {models : Models}

/-! ### Moves -/

inductive Move (dir : Dir Text) (p : Put models) : Dir Text → Put models → Prop
  | found {content : Bytes} : p.phase = .creating → dir.file (dataFile p.key) = some content →
      Move dir p dir
        { p with
          dataExisted := true
          phase := .readingMetadata .waiting }
  | create : p.phase = .creating → dir.file (dataFile p.key) = none →
      Move dir p (dir.put (dataFile p.key) []) { p with phase := .writingData 0 }
  | writeData {written count : ℕ} : p.phase = .writingData written →
      written < p.request.envelopeData.length →
      Move dir p
        (dir.put (dataFile p.key) (writeAt ((dir.file (dataFile p.key)).getD []) written
          ((p.request.envelopeData.drop written).take count)))
        { p with
          phase := .writingData
            (written + ((p.request.envelopeData.drop written).take count).length) }
  | closeData {written : ℕ} : p.phase = .writingData written →
      ¬written < p.request.envelopeData.length →
      Move dir p dir { p with phase := .readingMetadata .waiting }
  | read {r r' : Reading} {count : ℕ} : p.phase = .readingMetadata r →
      r.advance (dir.file (metadataFile p.key)) count = some r' →
      Move dir p dir { p with phase := .readingMetadata r' }
  | merge {bytes : Option Bytes} : p.phase = .readingMetadata (.ended bytes) →
      Move dir p dir
        { p with
          phase := .openingMetadata
            (readOrInitMetadata models p.checksum p.request.batchOpName bytes) }
  | truncate {metadata : DebugEnvelopeMetadataRecord} : p.phase = .openingMetadata metadata →
      Move dir p (dir.put (metadataFile p.key) []) { p with phase := .writingMetadata metadata 0 }
  | writeMetadata {metadata : DebugEnvelopeMetadataRecord} {written count : ℕ} :
      p.phase = .writingMetadata metadata written →
      written < (models.metadataToBinary metadata).length →
      Move dir p
        (dir.put (metadataFile p.key) (writeAt ((dir.file (metadataFile p.key)).getD []) written
          (((models.metadataToBinary metadata).drop written).take count)))
        { p with
          phase := .writingMetadata metadata
            (written + (((models.metadataToBinary metadata).drop written).take count).length) }
  | closeMetadata {metadata : DebugEnvelopeMetadataRecord} {written : ℕ} :
      p.phase = .writingMetadata metadata written →
      ¬written < (models.metadataToBinary metadata).length →
      Move dir p dir { p with phase := .stored metadata }

namespace Store

variable {s s' : Store models}

theorem write_cases {i : ℕ} {p : Put models} {name : Text} {bytes : Bytes} {written count : ℕ}
    {next : ℕ → Phase} {last : Phase} (h : s.write i p name bytes written count next last = some s') :
    (written < bytes.length ∧ s' = s.set i
        (s.dir.put name (writeAt ((s.dir.file name).getD []) written
          ((bytes.drop written).take count)))
        { p with phase := next (written + ((bytes.drop written).take count).length) }) ∨
      ¬written < bytes.length ∧ s' = s.set i s.dir { p with phase := last } := by
  unfold write at h
  split at h
  · next hlt =>
      split at h
      · cases h
      · cases h
        exact Or.inl ⟨hlt, rfl⟩
  · next hlt =>
      cases h
      exact Or.inr ⟨hlt, rfl⟩

theorem advance_cases {i : ℕ} {p : Put models} {count : ℕ} (h : s.advance i p count = some s') :
    ∃ dir p', s' = s.set i dir p' ∧ Move s.dir p dir p' := by
  unfold advance at h
  split at h
  · next hphase =>
      split at h
      · next content hfile =>
          cases h
          exact ⟨_, _, rfl, .found hphase hfile⟩
      · next hfile =>
          cases h
          exact ⟨_, _, rfl, .create hphase hfile⟩
  · next written hphase =>
      rcases write_cases h with ⟨hlt, rfl⟩ | ⟨hlt, rfl⟩
      · exact ⟨_, _, rfl, .writeData hphase hlt⟩
      · exact ⟨_, _, rfl, .closeData hphase hlt⟩
  · next bytes hphase =>
      cases h
      exact ⟨_, _, rfl, .merge hphase⟩
  · next r _ hphase =>
      obtain ⟨r', hr, rfl⟩ := Option.map_eq_some_iff.mp h
      exact ⟨_, _, rfl, .read hphase hr⟩
  · next metadata hphase =>
      cases h
      exact ⟨_, _, rfl, .truncate hphase⟩
  · next metadata written hphase =>
      rcases write_cases h with ⟨hlt, rfl⟩ | ⟨hlt, rfl⟩
      · exact ⟨_, _, rfl, .writeMetadata hphase hlt⟩
      · exact ⟨_, _, rfl, .closeMetadata hphase hlt⟩
  · cases h

theorem puts_set (s : Store models) (i : ℕ) (dir : Dir Text) (p : Put models) (j : ℕ) :
    (s.set i dir p).puts j = if j = i then some p else s.puts j := by
  simp only [set, Function.update_apply]

theorem puts_add (s : Store models) (p : Put models) (j : ℕ) :
    (s.add p).puts j = if j = s.nextPut then some p else s.puts j := by
  simp only [add, Function.update_apply]

theorem puts_add_of_some (p : Put models) (habsent : s.puts s.nextPut = none) {j : ℕ}
    {q : Put models} (hq : s.puts j = some q) : (s.add p).puts j = some q := by
  rw [puts_add, if_neg]
  · exact hq
  · rintro rfl
    cases habsent.symm.trans hq

end Store

theorem start_eq {request : PutEnvelopeRequest} {p : Put models}
    (h : Put.start models request = some p) :
    p.request = request ∧ p.dataExisted = false ∧ p.phase = .creating := by
  unfold Put.start at h
  split at h
  · cases h
  · cases h
    exact ⟨rfl, rfl, rfl⟩

/-! ### Effects -/

inductive Effect (dir : Dir Text) (p p' : Put models) : Dir Text → Prop
  | silent : p.writing = none → p'.writing = none → Effect dir p p' dir
  | opens {name bytes} : p.writing = none → p'.writing = some (name, bytes, 0) →
      Effect dir p p' (dir.put name [])
  | writes {name bytes written} (count : ℕ) : p.writing = some (name, bytes, written) →
      p'.writing = some (name, bytes, written + ((bytes.drop written).take count).length) →
      Effect dir p p' (dir.put name (writeAt ((dir.file name).getD []) written
        ((bytes.drop written).take count)))
  | closes {name bytes written} : p.writing = some (name, bytes, written) →
      ¬written < bytes.length → p'.writing = none → (name, bytes) ∈ p'.wrote → Effect dir p p' dir

/-- A request that may still create its data file has not found one. -/
def Put.Sound (p : Put models) : Prop :=
  p.phase.dataDone = false → p.dataExisted = false

namespace Move

variable {dir dir' : Dir Text} {p p' : Put models}

/-- A move goes on with the same request. -/
theorem same (h : Move dir p dir' p') : p'.request = p.request ∧ p'.key = p.key := by
  cases h <;> exact ⟨rfl, rfl⟩

theorem sound (h : Move dir p dir' p') (hsound : p.Sound) : p'.Sound := by
  cases h with
  | create hphase => exact fun _ => hsound (by rw [hphase]; rfl)
  | writeData hphase => exact fun _ => hsound (by rw [hphase]; rfl)
  | _ => exact nofun

theorem wrote_subset (h : Move dir p dir' p') : p.wrote ⊆ p'.wrote := by
  cases h with
  | found hphase | create hphase | writeData hphase | closeData hphase =>
      simp [Put.wrote, hphase, Phase.dataDone]
  | read hphase | merge hphase | truncate hphase | writeMetadata hphase =>
      simp [Put.wrote, hphase, Phase.dataDone, Put.key, Put.checksum, Put.epochIndex,
        Put.endpointsKey]
  | closeMetadata hphase =>
      simp [Put.wrote, hphase, Phase.dataDone, Put.key, Put.checksum, Put.epochIndex,
        Put.endpointsKey]

theorem effect (h : Move dir p dir' p') (hsound : p.Sound) : Effect dir p p' dir' := by
  cases h with
  | found hphase => exact .silent (by rw [Put.writing, hphase]) rfl
  | create hphase => exact .opens (by rw [Put.writing, hphase]) rfl
  | writeData hphase hlt => exact .writes _ (by rw [Put.writing, hphase]) rfl
  | closeData hphase hlt =>
      have hexisted : p.dataExisted = false := hsound (by rw [hphase]; rfl)
      refine .closes (by rw [Put.writing, hphase]) hlt rfl ?_
      simp [Put.wrote, Phase.dataDone, hexisted, Put.key, Put.checksum, Put.epochIndex,
        Put.endpointsKey]
  | read hphase => exact .silent (by rw [Put.writing, hphase]) rfl
  | merge hphase => exact .silent (by rw [Put.writing, hphase]) rfl
  | truncate hphase => exact .opens (by rw [Put.writing, hphase]) rfl
  | writeMetadata hphase hlt => exact .writes _ (by rw [Put.writing, hphase]) rfl
  | closeMetadata hphase hlt =>
      refine .closes (by rw [Put.writing, hphase]) hlt rfl ?_
      simp [Put.wrote, Put.key, Put.checksum, Put.epochIndex, Put.endpointsKey]

end Move

/-! ### Files -/

namespace Store

variable (s : Store models)

/-- Request `i` has the file open to write, and has written so many of the bytes. -/
def Opened (i : ℕ) (name : Text) (bytes : Bytes) (written : ℕ) : Prop :=
  ∃ p, s.puts i = some p ∧ p.writing = some (name, bytes, written)

/-- Some request has written the file completely. -/
def Wrote (name : Text) (bytes : Bytes) : Prop :=
  ∃ i < s.nextPut, ∃ p ∈ s.puts i, (name, bytes) ∈ p.wrote

structure Kept : Prop where
  absent : ∀ i, s.nextPut ≤ i → s.puts i = none
  sound : ∀ i p, s.puts i = some p → p.Sound
  /-- What is being written is in the file up to where it is written. -/
  front : ∀ i name bytes written, s.Opened i name bytes written →
    written ≤ bytes.length ∧ s.dir.file name = some (bytes.take written)
  alone : ∀ i j name bytes written other written', s.Opened i name bytes written →
    s.Opened j name other written' → i = j
  whole : ∀ name content, s.dir.file name = some content →
    (∃ i bytes written, s.Opened i name bytes written) ∨ s.Wrote name content

/-- A metadata file is opened to be written while no other request is writing it. -/
def Apart : StoreEvent → Prop
  | .put _ => True
  | .advance i _ => ∀ p ∈ s.puts i, p.phase.opening = true → ¬s.Written (metadataFile p.key)

instance : ∀ ev, Decidable (s.Apart ev)
  | .put _ => isTrue trivial
  | .advance i _ => inferInstanceAs (Decidable (∀ p ∈ s.puts i, p.phase.opening = true → _))

variable {s}

theorem Kept.lt (h : s.Kept) {i : ℕ} {p : Put models} (hp : s.puts i = some p) : i < s.nextPut := by
  by_contra hle
  cases (h.absent i (Nat.le_of_not_lt hle)).symm.trans hp

theorem Written.of_opened {s : Store models} (h : s.Kept) {i : ℕ} {name : Text} {bytes : Bytes}
    {written : ℕ} (hopened : s.Opened i name bytes written) : s.Written name := by
  obtain ⟨p, hp, hwriting⟩ := hopened
  exact ⟨i, h.lt hp, p, hp, by rw [hwriting]; rfl⟩

theorem kept_init : (init : Store models).Kept where
  absent _ _ := rfl
  sound _ _ := nofun
  front _ _ _ _ := fun ⟨_, hp, _⟩ => nomatch hp
  alone _ _ _ _ _ _ _ := fun ⟨_, hp, _⟩ => nomatch hp
  whole _ _ := nofun

section Set

variable {i : ℕ} {dir : Dir Text} {p p' : Put models}

theorem opened_set {j : ℕ} {name : Text} {bytes : Bytes} {written : ℕ} :
    (s.set i dir p').Opened j name bytes written ↔
      if j = i then p'.writing = some (name, bytes, written)
      else s.Opened j name bytes written := by
  unfold Opened
  rw [puts_set]
  split
  · exact ⟨fun ⟨_, hp, hwriting⟩ => Option.some.inj hp ▸ hwriting, fun h => ⟨p', rfl, h⟩⟩
  · exact Iff.rfl

theorem Wrote.set {name : Text} {bytes : Bytes} (h : s.Wrote name bytes) (hp : s.puts i = some p)
    (hsub : p.wrote ⊆ p'.wrote) : (s.set i dir p').Wrote name bytes := by
  obtain ⟨j, hlt, q, hq, hmem⟩ := h
  by_cases hj : j = i
  · subst hj
    cases hp.symm.trans hq
    exact ⟨j, hlt, p', by rw [puts_set, if_pos rfl]; rfl, hsub hmem⟩
  · exact ⟨j, hlt, q, by rw [puts_set, if_neg hj]; exact hq, hmem⟩

/-- A file that the request newly opens is not open. -/
theorem Kept.alone_set (h : s.Kept) (hp : s.puts i = some p)
    (hname : ∀ name bytes written, p'.writing = some (name, bytes, written) →
      (∃ other written', p.writing = some (name, other, written')) ∨
        ∀ j other written', ¬s.Opened j name other written')
    {j k : ℕ} {name : Text} {bytes other : Bytes} {written written' : ℕ}
    (hj : (s.set i dir p').Opened j name bytes written)
    (hk : (s.set i dir p').Opened k name other written') : j = k := by
  have hmine : ∀ {k bytes other written written'}, p'.writing = some (name, bytes, written) →
      s.Opened k name other written' → i = k := by
    intro k bytes other written written' hwriting hk
    rcases hname name bytes written hwriting with ⟨before, written'', hbefore⟩ | hnone
    · exact h.alone i k name before written'' other written' ⟨p, hp, hbefore⟩ hk
    · exact absurd hk (hnone k other written')
  rw [opened_set] at hj hk
  split at hj
  · next hji =>
      split at hk
      · next hki => exact hji.trans hki.symm
      · exact hji.trans (hmine hj hk)
  · split at hk
    · next hki => exact (hmine hk hj).symm.trans hki.symm
    · exact h.alone j k name bytes written other written' hj hk

/-- A file that was open is open still or written now. -/
theorem Kept.whole_set (h : s.Kept) (hp : s.puts i = some p) (hsub : p.wrote ⊆ p'.wrote)
    (hchanged : ∀ name content, dir.file name = some content →
      s.dir.file name = some content ∨ ∃ bytes written, p'.writing = some (name, bytes, written))
    (hleft : ∀ name bytes written, p.writing = some (name, bytes, written) →
      (∃ written', p'.writing = some (name, bytes, written')) ∨
        bytes.length ≤ written ∧ (name, bytes) ∈ p'.wrote)
    {name : Text} {content : Bytes} (hfile : dir.file name = some content) :
    (∃ j bytes written, (s.set i dir p').Opened j name bytes written) ∨
      (s.set i dir p').Wrote name content := by
  have hmine : ∀ {bytes written}, p'.writing = some (name, bytes, written) →
      (s.set i dir p').Opened i name bytes written := fun hwriting =>
    opened_set.mpr (by rw [if_pos rfl]; exact hwriting)
  rcases hchanged name content hfile with hold | ⟨bytes, written, hwriting⟩
  · rcases h.whole name content hold with ⟨j, bytes, written, hopened⟩ | hwrote
    · by_cases hj : j = i
      · subst hj
        obtain ⟨q, hq, hbefore⟩ := hopened
        cases hp.symm.trans hq
        rcases hleft name bytes written hbefore with ⟨written', hafter⟩ | ⟨hend, hmem⟩
        · exact Or.inl ⟨j, bytes, written', hmine hafter⟩
        · have hfront := (h.front j name bytes written ⟨p, hp, hbefore⟩).2
          rw [List.take_of_length_le hend] at hfront
          cases hold.symm.trans hfront
          exact Or.inr ⟨j, h.lt hp, p', by rw [puts_set, if_pos rfl]; rfl, hmem⟩
      · exact Or.inl ⟨j, bytes, written, opened_set.mpr (by rw [if_neg hj]; exact hopened)⟩
    · exact Or.inr (hwrote.set hp hsub)
  · exact Or.inl ⟨i, bytes, written, hmine hwriting⟩

theorem file_of_put {d : Dir Text} {name other : Text} {content bytes : Bytes}
    (h : (d.put name content).file other = some bytes) :
    other = name ∨ d.file other = some bytes := by
  rw [Dir.file_put] at h
  split at h
  · next heq => exact Or.inl heq
  · exact Or.inr h

/-- A request gets on. -/
theorem Kept.set (h : s.Kept) (hp : s.puts i = some p) (hsound : p'.Sound)
    (hsub : p.wrote ⊆ p'.wrote) (heffect : Effect s.dir p p' dir)
    (hapart : ∀ name bytes, p.writing = none → p'.writing = some (name, bytes, 0) →
      ∀ j other written, ¬s.Opened j name other written) : (s.set i dir p').Kept := by
  have habsent : ∀ j, s.nextPut ≤ j → (s.set i dir p').puts j = none := by
    intro j hle
    rw [puts_set, if_neg]
    · exact h.absent j hle
    · rintro rfl
      cases (h.absent j hle).symm.trans hp
  have hsounds : ∀ j q, (s.set i dir p').puts j = some q → q.Sound := by
    intro j q hq
    rw [puts_set] at hq
    split at hq
    · cases hq
      exact hsound
    · exact h.sound j q hq
  have hfront : (∀ name bytes written, p'.writing = some (name, bytes, written) →
        written ≤ bytes.length ∧ dir.file name = some (bytes.take written)) →
      (∀ j name bytes written, j ≠ i → s.Opened j name bytes written →
        dir.file name = s.dir.file name) →
      ∀ j name bytes written, (s.set i dir p').Opened j name bytes written →
        written ≤ bytes.length ∧ dir.file name = some (bytes.take written) := by
    intro hmine hothers j name bytes written hopened
    rw [opened_set] at hopened
    split at hopened
    · exact hmine name bytes written hopened
    · next hj =>
        rw [hothers j name bytes written hj hopened]
        exact h.front j name bytes written hopened
  cases heffect with
  | silent hbefore hafter =>
      refine ⟨habsent, hsounds, hfront ?_ fun _ _ _ _ _ _ => rfl, fun j k _ _ _ _ _ => ?_,
        fun _ _ => ?_⟩
      · rw [hafter]
        exact nofun
      · refine h.alone_set hp ?_
        rw [hafter]
        exact nofun
      · refine h.whole_set hp hsub (fun _ _ => Or.inl) ?_
        rw [hbefore]
        exact nofun
  | @opens name bytes hbefore hafter =>
      have hnone := hapart name bytes hbefore hafter
      refine ⟨habsent, hsounds, hfront ?_ ?_, fun j k _ _ _ _ _ => ?_, fun _ _ => ?_⟩
      · rw [hafter]
        rintro _ _ _ ⟨⟩
        exact ⟨Nat.zero_le _, Dir.file_put_self _ _ _⟩
      · intro j other bytes' written hj hopened
        refine Dir.file_put_ne _ _ ?_
        rintro rfl
        exact hnone j bytes' written hopened
      · refine h.alone_set hp ?_
        rw [hafter]
        rintro _ _ _ ⟨⟩
        exact Or.inr hnone
      · refine h.whole_set hp hsub (fun other content hfile => ?_) ?_
        · rcases file_of_put hfile with rfl | hold
          · exact Or.inr ⟨bytes, 0, hafter⟩
          · exact Or.inl hold
        · rw [hbefore]
          exact nofun
  | @writes name bytes written count hbefore hafter =>
      obtain ⟨hle, hfile⟩ := h.front i name bytes written ⟨p, hp, hbefore⟩
      refine ⟨habsent, hsounds, hfront ?_ ?_, fun j k _ _ _ _ _ => ?_, fun _ _ => ?_⟩
      · rw [hafter]
        rintro _ _ _ ⟨⟩
        have hlength : ((bytes.drop written).take count).length ≤ bytes.length - written := by
          rw [List.length_take, List.length_drop]
          exact Nat.min_le_right _ _
        refine ⟨by omega, ?_⟩
        rw [Dir.file_put_self, hfile, Option.getD_some, writeAt_take bytes hle, List.length_take,
          List.length_drop]
        exact congrArg some (List.take_eq_take_iff.mpr (by omega))
      · intro j other bytes' written' hj hopened
        refine Dir.file_put_ne _ _ ?_
        rintro rfl
        exact hj (h.alone j i other bytes' written' bytes written hopened ⟨p, hp, hbefore⟩)
      · refine h.alone_set hp ?_
        rw [hafter]
        rintro _ _ _ ⟨⟩
        exact Or.inl ⟨bytes, written, hbefore⟩
      · refine h.whole_set hp hsub (fun other content hfile => ?_) ?_
        · rcases file_of_put hfile with rfl | hold
          · exact Or.inr ⟨bytes, _, hafter⟩
          · exact Or.inl hold
        · rw [hbefore]
          rintro _ _ _ ⟨⟩
          exact Or.inl ⟨_, hafter⟩
  | @closes name bytes written hbefore hend hafter hmem =>
      refine ⟨habsent, hsounds, hfront ?_ fun _ _ _ _ _ _ => rfl, fun j k _ _ _ _ _ => ?_,
        fun _ _ => ?_⟩
      · rw [hafter]
        exact nofun
      · refine h.alone_set hp ?_
        rw [hafter]
        exact nofun
      · refine h.whole_set hp hsub (fun _ _ => Or.inl) ?_
        rw [hbefore]
        rintro _ _ _ ⟨⟩
        exact Or.inr ⟨Nat.le_of_not_lt hend, hmem⟩

end Set

/-- Only a data file that does not exist is created, and a metadata file is opened apart. -/
theorem not_opened {i count : ℕ} {dir : Dir Text} {p p' : Put models} (h : s.Kept)
    (hp : s.puts i = some p) (hmove : Move s.dir p dir p') (hapart : s.Apart (.advance i count))
    (name : Text) (bytes : Bytes) (hbefore : p.writing = none)
    (hafter : p'.writing = some (name, bytes, 0)) (j : ℕ) (other : Bytes) (written : ℕ) :
    ¬s.Opened j name other written := by
  intro hopened
  cases hmove with
  | create hphase hfile =>
      cases hafter
      have hsome : s.dir.file (dataFile p.key) = some _ := (h.front j _ other written hopened).2
      cases hsome.symm.trans hfile
  | truncate hphase =>
      cases hafter
      have hnot := hapart p hp (by rw [hphase]; rfl)
      exact hnot (Written.of_opened h hopened)
  | found | closeData | read | merge | closeMetadata => cases hafter
  | writeData hphase => simp [Put.writing, hphase] at hbefore
  | writeMetadata hphase => simp [Put.writing, hphase] at hbefore

theorem Kept.start (h : s.Kept) {request : PutEnvelopeRequest} {p : Put models}
    (hp : Put.start models request = some p) : (s.add p).Kept := by
  obtain ⟨_, hexisted, hphase⟩ := start_eq hp
  have hwriting : p.writing = none := by rw [Put.writing, hphase]
  have hopened : ∀ {j name bytes written}, (s.add p).Opened j name bytes written →
      s.Opened j name bytes written := by
    rintro j name bytes written ⟨q, hq, hbefore⟩
    rw [puts_add] at hq
    split at hq
    · cases hq
      cases hwriting.symm.trans hbefore
    · exact ⟨q, hq, hbefore⟩
  have hother : ∀ {j q}, s.puts j = some q → (s.add p).puts j = some q := fun hq =>
    puts_add_of_some p (h.absent s.nextPut (Nat.le_refl _)) hq
  refine ⟨fun j hle => ?_, fun j q hq => ?_, fun j name bytes written hj => ?_,
    fun j k name bytes written other written' hj hk => ?_, fun name content hfile => ?_⟩
  · have hle : s.nextPut + 1 ≤ j := hle
    rw [puts_add, if_neg (by omega)]
    exact h.absent j (by omega)
  · rw [puts_add] at hq
    split at hq
    · cases hq
      exact fun _ => hexisted
    · exact h.sound j q hq
  · exact h.front j name bytes written (hopened hj)
  · exact h.alone j k name bytes written other written' (hopened hj) (hopened hk)
  · rcases h.whole name content hfile with ⟨j, bytes, written, q, hq, hbefore⟩ | hwrote
    · exact Or.inl ⟨j, bytes, written, q, hother hq, hbefore⟩
    · obtain ⟨j, hlt, q, hq, hmem⟩ := hwrote
      exact Or.inr ⟨j, Nat.lt_succ_of_lt hlt, q, hother hq, hmem⟩

theorem Kept.step (h : s.Kept) {ev : StoreEvent} (hs : s.step ev = some s') (hapart : s.Apart ev) :
    s'.Kept := by
  cases ev with
  | put request =>
      simp only [Store.step] at hs
      split at hs
      · cases hs
        exact h
      · next p hp =>
          cases hs
          exact h.start hp
  | advance i count =>
      simp only [Store.step] at hs
      split at hs
      · cases hs
      · next p hp =>
          obtain ⟨dir, p', rfl, hmove⟩ := advance_cases hs
          have hsound := h.sound i p hp
          exact h.set hp (hmove.sound hsound) hmove.wrote_subset (hmove.effect hsound)
            (not_opened h hp hmove hapart)

/-- What has been written stays written. -/
theorem wrote_step {ev : StoreEvent} (hs : s.step ev = some s') {name : Text} {bytes : Bytes}
    (h : s.Wrote name bytes) (habsent : s.puts s.nextPut = none) : s'.Wrote name bytes := by
  cases ev with
  | put request =>
      simp only [Store.step] at hs
      split at hs
      · cases hs
        exact h
      · next p hp =>
          cases hs
          obtain ⟨i, hlt, q, hq, hmem⟩ := h
          exact ⟨i, Nat.lt_succ_of_lt hlt, q, puts_add_of_some p habsent hq, hmem⟩
  | advance i count =>
      simp only [Store.step] at hs
      split at hs
      · cases hs
      · next p hp =>
          obtain ⟨dir, p', rfl, hmove⟩ := advance_cases hs
          exact h.set hp hmove.wrote_subset

/-- A file that nobody has open and nobody opens stays as it is. -/
theorem Kept.undisturbed (h : s.Kept) {ev : StoreEvent} (hs : s.step ev = some s') {name : Text}
    {content : Bytes} (hfile : s.dir.file name = some content)
    (hclosed : ∀ i bytes written, ¬s.Opened i name bytes written)
    (hopen : ∀ i count, ev = .advance i count → ∀ p ∈ s.puts i, ∀ metadata,
      p.phase = .openingMetadata metadata → metadataFile p.key ≠ name) :
    s'.dir.file name = some content ∧ ∀ i bytes written, ¬s'.Opened i name bytes written := by
  cases ev with
  | put request =>
      simp only [Store.step] at hs
      split at hs
      · cases hs
        exact ⟨hfile, hclosed⟩
      · next p hp =>
          cases hs
          refine ⟨hfile, ?_⟩
          rintro i bytes written ⟨q, hq, hwriting⟩
          rw [puts_add] at hq
          split at hq
          · cases hq
            obtain ⟨_, _, hphase⟩ := start_eq hp
            rw [Put.writing, hphase] at hwriting
            cases hwriting
          · exact hclosed i bytes written ⟨q, hq, hwriting⟩
  | advance i count =>
      simp only [Store.step] at hs
      split at hs
      · cases hs
      · next p hp =>
          obtain ⟨dir, p', rfl, hmove⟩ := advance_cases hs
          have hbefore : ∀ bytes written, p.writing ≠ some (name, bytes, written) :=
            fun bytes written hwriting => hclosed i bytes written ⟨p, hp, hwriting⟩
          have hnew : ∀ other bytes, p.writing = none → p'.writing = some (other, bytes, 0) →
              other ≠ name := by
            rintro other bytes hnone hafter rfl
            cases hmove with
            | create hphase hmissing =>
                cases hafter
                cases hmissing.symm.trans hfile
            | truncate hphase =>
                cases hafter
                exact hopen i count rfl p hp _ hphase rfl
            | found | closeData | read | merge | closeMetadata => cases hafter
            | writeData hphase => simp [Put.writing, hphase] at hnone
            | writeMetadata hphase => simp [Put.writing, hphase] at hnone
          have hopened : (∀ bytes written, p'.writing ≠ some (name, bytes, written)) →
              ∀ j bytes written, ¬(s.set i dir p').Opened j name bytes written := by
            intro hafter j bytes written hj
            rw [opened_set] at hj
            split at hj
            · exact hafter bytes written hj
            · exact hclosed j bytes written hj
          cases hmove.effect (h.sound i p hp) with
          | silent _ hafter | closes _ _ hafter =>
              refine ⟨hfile, hopened ?_⟩
              rw [hafter]
              exact fun _ _ => (Option.some_ne_none _).symm
          | @opens other bytes hnone hafter =>
              have hne := hnew other bytes hnone hafter
              refine ⟨(Dir.file_put_ne _ _ hne.symm).trans hfile, hopened ?_⟩
              rw [hafter]
              rintro _ _ ⟨⟩
              exact hne rfl
          | @writes other bytes written _ hwriting hafter =>
              have hne : other ≠ name := by
                rintro rfl
                exact hbefore bytes written hwriting
              refine ⟨(Dir.file_put_ne _ _ hne.symm).trans hfile, hopened ?_⟩
              rw [hafter]
              rintro _ _ ⟨⟩
              exact hne rfl

end Store

end WireTools.EnvelopeStorage
