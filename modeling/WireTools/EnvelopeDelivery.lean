import WireTools.EnvelopeRoutes
import WireTools.MetadataCodec

/-! # Deliveries of operators

Operators deliver the same envelope, and the metadata of its key has to list them all.

* `Store.Serial`: no two requests of a key are between reading the metadata and having written it;
* `Lists`: a record lists the operators whose requests for the key have been handled, and maybe
  one more;
* `Merges`: the invariant of serial runs.  A metadata file that nobody is writing lists the
  operators so far (`Current`), and what a request is about to write lists its own as well;
* `deliveries_recorded`: when all requests have been handled, every operator is listed once, and
  the three ways of reading report the key. -/

namespace WireTools.EnvelopeStorage

open Files
open Protobuf (Bytes)

variable {models : Models}

/-- The metadata has been read or is being read, and not been written yet. -/
def Phase.merging : Phase → Bool
  | readingMetadata .waiting => false
  | readingMetadata _ | openingMetadata _ | writingMetadata _ _ => true
  | _ => false

def Phase.done : Phase → Bool
  | stored _ => true
  | _ => false

/-- The type that the key of a request gives back. -/
def Put.knownType (p : Put models) : ℕ :=
  if (models.DebugOutpostEndpointsType.name p.request.endpointsType).isSome then
    p.request.endpointsType
  else UNKNOWN

namespace Store

variable (s : Store models)

def Merging (key : Text) : Prop :=
  ∃ i < s.nextPut, ∃ p ∈ s.puts i, p.key = key ∧ p.phase.merging = true

instance (key : Text) : Decidable (s.Merging key) :=
  inferInstanceAs (Decidable (∃ i < s.nextPut, ∃ p ∈ s.puts i, _))

/-- Operators have well-formed names, and metadata is read to be merged while no other request is
merging for the key. -/
def Serial : StoreEvent → Prop
  | .put request => Utf8.WellFormed request.batchOpName
  | .advance i _ => ∀ p ∈ s.puts i, p.phase = .readingMetadata .waiting → ¬s.Merging p.key

instance : ∀ ev, Decidable (s.Serial ev)
  | .put request => inferInstanceAs (Decidable (Utf8.WellFormed request.batchOpName))
  | .advance i _ => inferInstanceAs (Decidable (∀ p ∈ s.puts i,
      p.phase = .readingMetadata .waiting → ¬s.Merging p.key))

/-- A request of the operator for the key has been handled. -/
def Delivered (key batchOpName : Text) : Prop :=
  ∃ i p metadata, s.puts i = some p ∧ p.key = key ∧ p.phase = .stored metadata ∧
    p.request.batchOpName = batchOpName

/-- The operators that have delivered, and `more`, each once. -/
structure Lists (key : Text) (more : Option Text) (metadata : DebugEnvelopeMetadataRecord) :
    Prop where
  checksum : ∃ p : Put models, p.key = key ∧ metadata.checksum = packedChecksum p.checksum
  nodup : metadata.batchOpNames.Nodup
  names : ∀ batchOpName, batchOpName ∈ metadata.batchOpNames ↔
    s.Delivered key batchOpName ∨ batchOpName ∈ more

/-- The metadata of the key lists the operators so far, or there is none and none has delivered. -/
def Current (key : Text) : Prop :=
  (s.dir.file (metadataFile key) = none ∧ ∀ batchOpName, ¬s.Delivered key batchOpName) ∨
    ∃ metadata, s.dir.file (metadataFile key) = some (models.metadataToBinary metadata) ∧
      s.Lists key none metadata

structure Merges : Prop where
  kept : s.Kept
  wellFormed : ∀ i p, s.puts i = some p → Utf8.WellFormed p.request.batchOpName
  apart : ∀ i j p q, s.puts i = some p → s.puts j = some q → p.key = q.key →
    p.phase.merging = true → q.phase.merging = true → i = j
  created : ∀ i p, s.puts i = some p → p.phase ≠ .creating →
    ∃ content, s.dir.file (dataFile p.key) = some content
  current : ∀ key, (∀ i p metadata written, s.puts i = some p → p.key = key →
    p.phase ≠ .writingMetadata metadata written) → s.Current key
  reading : ∀ i p r, s.puts i = some p → p.phase = .readingMetadata r →
    r.Of (s.dir.file (metadataFile p.key)) ∧
      ∀ content, r = .ended content → content = s.dir.file (metadataFile p.key)
  opening : ∀ i p metadata, s.puts i = some p → p.phase = .openingMetadata metadata →
    s.Lists p.key p.request.batchOpName metadata
  writing : ∀ i p metadata written, s.puts i = some p →
    p.phase = .writingMetadata metadata written →
    s.Lists p.key (some p.request.batchOpName) metadata

theorem merges_init : (init : Store models).Merges where
  kept := kept_init
  wellFormed _ _ := nofun
  apart _ _ _ _ := nofun
  created _ _ := nofun
  current _ _ := Or.inl ⟨rfl, fun _ ⟨_, _, _, hp, _⟩ => nomatch hp⟩
  reading _ _ _ := nofun
  opening _ _ _ := nofun
  writing _ _ _ _ := nofun

variable {s} {s' : Store models}

/-! ### Keys -/

/-- The key determines the checksum. -/
theorem checksum_of_key (hlawful : models.Lawful) {p q : Put models} (h : p.key = q.key) :
    p.checksum = q.checksum := by
  have hdash : ∀ p : Put models, dash ∉ p.checksum := fun p hmem =>
    (hlawful.digest p.request.envelopeData).2.not_mem.1 (List.mem_of_mem_take hmem)
  have hp := parse_storageKey p.epochIndex p.endpointsKey (hdash p)
  have hq := parse_storageKey q.epochIndex q.endpointsKey (hdash q)
  have hkey : storageKey p.epochIndex p.endpointsKey p.checksum =
      storageKey q.epochIndex q.endpointsKey q.checksum := h
  rw [hkey] at hp
  exact congrArg ParsedEnvelopeStorageKey.checksum (Option.some.inj (hp.symm.trans hq))

/-! ### Moves and deliveries -/

variable {i : ℕ} {dir : Dir Text} {p p' : Put models}

/-- A move leaves the metadata of other keys alone, and that of its own key while it is not
merging. -/
theorem metadata_frame (h : Move s.dir p dir p') :
    (∀ key, key ≠ p.key → dir.file (metadataFile key) = s.dir.file (metadataFile key)) ∧
      (p.phase.merging = false →
        dir.file (metadataFile p.key) = s.dir.file (metadataFile p.key) ∧
          ∀ metadata, p'.phase ≠ .stored metadata) := by
  have hdata : ∀ content key, (s.dir.put (dataFile p.key) content).file (metadataFile key) =
      s.dir.file (metadataFile key) := fun content key =>
    Dir.file_put_ne _ _ (dataFile_ne_metadataFile p.key key).symm
  have hmetadata : ∀ content key, key ≠ p.key →
      (s.dir.put (metadataFile p.key) content).file (metadataFile key) =
        s.dir.file (metadataFile key) := fun content key hne =>
    Dir.file_put_ne _ _ fun heq => hne (metadataFile_inj.mp heq)
  cases h with
  | found | closeData | read | merge => exact ⟨fun _ _ => rfl, fun _ => ⟨rfl, nofun⟩⟩
  | create | writeData => exact ⟨fun key _ => hdata _ key, fun _ => ⟨hdata _ _, nofun⟩⟩
  | truncate hphase | writeMetadata hphase =>
      refine ⟨hmetadata _, fun hnot => ?_⟩
      rw [hphase] at hnot
      cases hnot
  | closeMetadata hphase =>
      refine ⟨fun _ _ => rfl, fun hnot => ?_⟩
      rw [hphase] at hnot
      cases hnot

theorem delivered_set (hp : s.puts i = some p) (hmove : Move s.dir p dir p') (key name : Text) :
    (s.set i dir p').Delivered key name ↔ s.Delivered key name ∨
      p.key = key ∧ p.request.batchOpName = name ∧ ∃ metadata, p'.phase = .stored metadata := by
  obtain ⟨hrequest, hkey⟩ := hmove.same
  constructor
  · rintro ⟨j, q, metadata, hq, hqkey, hphase, hname⟩
    rw [puts_set] at hq
    split at hq
    · cases hq
      exact Or.inr ⟨hkey.symm.trans hqkey, hrequest ▸ hname, metadata, hphase⟩
    · exact Or.inl ⟨j, q, metadata, hq, hqkey, hphase, hname⟩
  · rintro (⟨j, q, metadata, hq, hqkey, hphase, hname⟩ | ⟨hpkey, hname, metadata, hphase⟩)
    · refine ⟨j, q, metadata, ?_, hqkey, hphase, hname⟩
      rw [puts_set, if_neg]
      · exact hq
      · rintro rfl
        cases hp.symm.trans hq
        cases hmove <;> simp_all
    · exact ⟨i, p', metadata, by rw [puts_set, if_pos rfl], hkey.trans hpkey, hphase,
        hrequest ▸ hname⟩

theorem Lists.congr {key : Text} {more : Option Text} {metadata : DebugEnvelopeMetadataRecord}
    (h : s.Lists key more metadata)
    (hdelivered : ∀ name, s'.Delivered key name ↔ s.Delivered key name) :
    s'.Lists key more metadata :=
  ⟨h.checksum, h.nodup, fun name => (h.names name).trans (or_congr_left (hdelivered name).symm)⟩

theorem Current.congr {key : Text} (h : s.Current key)
    (hfile : s'.dir.file (metadataFile key) = s.dir.file (metadataFile key))
    (hdelivered : ∀ name, s'.Delivered key name ↔ s.Delivered key name) : s'.Current key := by
  rcases h with ⟨hnone, hno⟩ | ⟨metadata, hsome, hlists⟩
  · exact Or.inl ⟨hfile.trans hnone, fun name h => hno name ((hdelivered name).mp h)⟩
  · exact Or.inr ⟨metadata, hfile.trans hsome, hlists.congr hdelivered⟩

theorem writing_metadata {q : Put models} {key : Text} {bytes : Bytes} {written : ℕ}
    (h : q.writing = some (metadataFile key, bytes, written)) :
    ∃ metadata, q.phase = .writingMetadata metadata written ∧ q.key = key ∧
      bytes = models.metadataToBinary metadata := by
  unfold Put.writing at h
  split at h
  · exact absurd (congrArg Prod.fst (Option.some.inj h)) (dataFile_ne_metadataFile _ _)
  · next metadata written' hphase =>
      obtain ⟨hname, hrest⟩ := Prod.mk.inj (Option.some.inj h)
      obtain ⟨rfl, rfl⟩ := Prod.mk.inj hrest
      exact ⟨metadata, hphase, metadataFile_inj.mp hname, rfl⟩
  · cases h

namespace Merges

/-- While a request writes, the others leave its metadata file alone. -/
theorem apart_event (h : s.Merges) (count : ℕ) : s.Apart (.advance i count) := by
  rintro p hp hopening ⟨j, _, q, hq, hname⟩
  obtain ⟨⟨name, bytes, written⟩, hwriting, rfl⟩ := Option.map_eq_some_iff.mp hname
  have hmerging : p.phase.merging = true := by
    cases hphase : p.phase <;> rw [hphase] at hopening <;> cases hopening
    rfl
  obtain ⟨metadata, hphase, hkey, _⟩ := writing_metadata hwriting
  have hij := h.apart i j p q hp hq hkey.symm hmerging (by rw [hphase]; rfl)
  subst hij
  cases hp.symm.trans hq
  rw [hphase] at hopening
  cases hopening

theorem not_merging (h : s.Merges) (hp : s.puts i = some p) (hmerging : p.phase.merging = true)
    {j : ℕ} {q : Put models} (hq : s.puts j = some q) (hkey : q.key = p.key) (hj : j ≠ i) :
    q.phase.merging = false := by
  by_contra hnot
  exact hj (h.apart j i q p hq hp hkey (by simpa using hnot) hmerging)

/-- What is known of another request is not changed. -/
theorem other (h : s.Merges) (hp : s.puts i = some p) (hmove : Move s.dir p dir p') {j : ℕ}
    {q : Put models} (hq : s.puts j = some q) (hj : j ≠ i) (hmerging : q.phase.merging = true) :
    dir.file (metadataFile q.key) = s.dir.file (metadataFile q.key) ∧
      ∀ name, (s.set i dir p').Delivered q.key name ↔ s.Delivered q.key name := by
  obtain ⟨hframe, hself⟩ := metadata_frame hmove
  by_cases hkey : q.key = p.key
  · have hnot := h.not_merging hq hmerging hp hkey.symm hj.symm
    obtain ⟨hfile, hstored⟩ := hself hnot
    refine ⟨hkey ▸ hfile, fun name => (delivered_set hp hmove q.key name).trans ?_⟩
    exact or_iff_left fun ⟨_, _, metadata, hphase⟩ => hstored metadata hphase
  · refine ⟨hframe q.key hkey, fun name => (delivered_set hp hmove q.key name).trans ?_⟩
    exact or_iff_left fun hown => hkey hown.1.symm

/-- A move that neither writes metadata nor ends the request keeps all metadata current. -/
theorem current_set (h : s.Merges) (hp : s.puts i = some p) (hmove : Move s.dir p dir p')
    (hbefore : ∀ metadata written, p.phase ≠ .writingMetadata metadata written)
    (hfile : dir.file (metadataFile p.key) = s.dir.file (metadataFile p.key))
    (hstored : ∀ metadata, p'.phase ≠ .stored metadata) {key : Text}
    (hnone : ∀ j q metadata written, (s.set i dir p').puts j = some q → q.key = key →
      q.phase ≠ .writingMetadata metadata written) : (s.set i dir p').Current key := by
  have hcurrent : s.Current key := by
    refine h.current key fun j q metadata written hq hkey => ?_
    by_cases hj : j = i
    · subst hj
      cases hp.symm.trans hq
      exact hbefore metadata written
    · exact hnone j q metadata written (by rw [puts_set, if_neg hj]; exact hq) hkey
  refine hcurrent.congr ?_ fun name => (delivered_set hp hmove key name).trans ?_
  · by_cases hkey : key = p.key
    · rw [hkey]
      exact hfile
    · exact (metadata_frame hmove).1 key hkey
  · exact or_iff_left fun ⟨_, _, metadata, hphase⟩ => hstored metadata hphase

/-- The record written is the one of the operators so far, and the request's own. -/
theorem current_stored (h : s.Merges) {metadata : DebugEnvelopeMetadataRecord} {written : ℕ}
    (hp : s.puts i = some p) (hphase : p.phase = .writingMetadata metadata written)
    (hend : ¬written < (models.metadataToBinary metadata).length)
    (hp' : p' = { p with phase := .stored metadata }) {key : Text}
    (hnone : ∀ j q other count, (s.set i s.dir p').puts j = some q → q.key = key →
      q.phase ≠ .writingMetadata other count) : (s.set i s.dir p').Current key := by
  subst hp'
  have hmove : Move s.dir p s.dir { p with phase := .stored metadata } :=
    .closeMetadata hphase hend
  have hdelivered := delivered_set hp hmove key
  by_cases hkey : key = p.key
  · subst hkey
    have hwriting : p.writing =
        some (metadataFile p.key, models.metadataToBinary metadata, written) := by
      rw [Put.writing, hphase]
    have hfile := (h.kept.front i _ _ _ ⟨p, hp, hwriting⟩).2
    rw [List.take_of_length_le (Nat.le_of_not_lt hend)] at hfile
    obtain ⟨hchecksum, hnodup, hnames⟩ := h.writing i p metadata written hp hphase
    refine Or.inr ⟨metadata, hfile, hchecksum, hnodup, fun name => ?_⟩
    rw [hnames, hdelivered]
    constructor
    · rintro (hbefore | hown)
      · exact Or.inl (Or.inl hbefore)
      · exact Or.inl (Or.inr ⟨rfl, Option.some.inj hown, metadata, rfl⟩)
    · rintro ((hbefore | ⟨_, hown, _⟩) | hno)
      · exact Or.inl hbefore
      · exact Or.inr (congrArg some hown)
      · cases hno
  · have hcurrent : s.Current key := by
      refine h.current key fun j q other count hq hqkey => ?_
      refine hnone j q other count ?_ hqkey
      rw [puts_set, if_neg]
      · exact hq
      · rintro rfl
        cases hp.symm.trans hq
        exact hkey hqkey.symm
    refine hcurrent.congr rfl fun name => (hdelivered name).trans ?_
    exact or_iff_left fun hown => hkey hown.1.symm

theorem wellFormed_lists (h : s.Merges) {key : Text} {metadata : DebugEnvelopeMetadataRecord}
    (hlists : s.Lists key none metadata) :
    ∀ name ∈ metadata.batchOpNames, Utf8.WellFormed name := by
  intro name hname
  rcases (hlists.names name).mp hname with ⟨j, q, _, hq, _, _, rfl⟩ | hno
  · exact h.wellFormed j q hq
  · cases hno

/-- What the operators so far are listed in is read back. -/
theorem read_lists (h : s.Merges) (hlawful : models.Lawful) {key : Text}
    {metadata : DebugEnvelopeMetadataRecord} (hlists : s.Lists key none metadata) :
    models.metadataFromBinary (models.metadataToBinary metadata) = some metadata := by
  obtain ⟨q, _, hchecksum⟩ := hlists.checksum
  refine hlawful.metadata metadata ?_ (h.wellFormed_lists hlists)
  rw [hchecksum]
  refine packedChecksum_lt _ fun c hc => ?_
  exact (hlawful.digest q.request.envelopeData).2 c (List.mem_of_mem_take hc)

/-- What a request merges is what it has read. -/
theorem lists_merge (h : s.Merges) (hlawful : models.Lawful) (hp : s.puts i = some p)
    {bytes : Option Bytes} (hphase : p.phase = .readingMetadata (.ended bytes)) :
    s.Lists p.key (some p.request.batchOpName)
      (readOrInitMetadata models p.checksum p.request.batchOpName bytes) := by
  have hbytes := (h.reading i p _ hp hphase).2 bytes rfl
  have hcurrent : s.Current p.key := by
    refine h.current p.key fun j q metadata written hq hkey hwriting => ?_
    by_cases hj : j = i
    · subst hj
      cases hp.symm.trans hq
      cases hphase.symm.trans hwriting
    · have hnot := h.not_merging hp (by rw [hphase]; rfl) hq hkey hj
      rw [hwriting] at hnot
      cases hnot
  rcases hcurrent with ⟨hnone, hno⟩ | ⟨metadata, hsome, hlists⟩
  · rw [hbytes, hnone]
    refine ⟨⟨p, rfl, rfl⟩, List.pairwise_singleton _ _, fun name => ?_⟩
    constructor
    · intro hname
      exact Or.inr (congrArg some (List.mem_singleton.mp hname).symm)
    · rintro (hbefore | hown)
      · exact absurd hbefore (hno name)
      · exact List.mem_singleton.mpr (Option.some.inj hown).symm
  · have hread := h.read_lists hlawful hlists
    simp only [readOrInitMetadata, hbytes, hsome, Option.bind_some, hread]
    obtain ⟨hchecksum, hnodup, hnames⟩ := hlists
    have hnames : ∀ name, name ∈ metadata.batchOpNames ↔ s.Delivered p.key name := fun name =>
      (hnames name).trans (or_iff_left (Option.some_ne_none _).symm)
    by_cases hmem : p.request.batchOpName ∈ metadata.batchOpNames
    · rw [if_pos hmem]
      refine ⟨hchecksum, hnodup, fun name => ?_⟩
      rw [hnames]
      refine (or_iff_left_of_imp fun hown => ?_).symm
      rw [← Option.some.inj hown]
      exact (hnames _).mp hmem
    · rw [if_neg hmem]
      refine ⟨hchecksum, ?_, fun name => ?_⟩
      · refine List.nodup_append.mpr ⟨hnodup, List.pairwise_singleton _ _, ?_⟩
        rintro name hname _ hlast rfl
        rw [List.mem_singleton.mp hlast] at hname
        exact hmem hname
      · rw [List.mem_append, hnames, List.mem_singleton]
        exact or_congr_right
          ⟨fun heq => congrArg some heq.symm, fun hown => (Option.some.inj hown).symm⟩

theorem merging_of_move (hmove : Move s.dir p dir p')
    (hserial : p.phase = .readingMetadata .waiting → ¬s.Merging p.key)
    (hmerging : p'.phase.merging = true) : p.phase.merging = true ∨ ¬s.Merging p.key := by
  cases hmove with
  | found | create | writeData | closeData | closeMetadata => cases hmerging
  | @read r _ _ hphase hr =>
      cases r with
      | waiting => exact Or.inr (hserial hphase)
      | reading size buffer => exact Or.inl (by rw [hphase]; rfl)
      | ended content => cases hr
  | merge hphase | truncate hphase | writeMetadata hphase => exact Or.inl (by rw [hphase]; rfl)

/-- Once a request has left its first phase, its data file is there. -/
theorem created_set (h : s.Merges) (hp : s.puts i = some p) (hmove : Move s.dir p dir p') {j : ℕ}
    {q : Put models} (hq : (s.set i dir p').puts j = some q) (hphase : q.phase ≠ .creating) :
    ∃ content, dir.file (dataFile q.key) = some content := by
  have hput : ∀ (d : Dir Text) (name other : Text) (bytes : Bytes),
      (∃ content, d.file other = some content) →
        ∃ content, (d.put name bytes).file other = some content := by
    rintro d name other bytes ⟨content, hcontent⟩
    rw [Dir.file_put]
    split
    · exact ⟨bytes, rfl⟩
    · exact ⟨content, hcontent⟩
  have hkeep : ∀ name, (∃ content, s.dir.file name = some content) →
      ∃ content, dir.file name = some content := by
    intro name hname
    cases hmove with
    | found | closeData | read | merge | closeMetadata => exact hname
    | create | writeData | truncate | writeMetadata => exact hput _ _ _ _ hname
  rw [puts_set] at hq
  split at hq
  · cases hq
    cases hmove with
    | found _ hfile => exact ⟨_, hfile⟩
    | create => exact ⟨_, Dir.file_put_self _ _ _⟩
    | writeData hbefore | closeData hbefore | read hbefore | merge hbefore | truncate hbefore
    | writeMetadata hbefore | closeMetadata hbefore =>
        exact hkeep _ (h.created i p hp (by simp [hbefore]))
  · exact hkeep _ (h.created j q hq hphase)

theorem current_move (h : s.Merges) (hp : s.puts i = some p) (hmove : Move s.dir p dir p')
    {key : Text} (hnone : ∀ j q other count, (s.set i dir p').puts j = some q → q.key = key →
      q.phase ≠ .writingMetadata other count) : (s.set i dir p').Current key := by
  have hself : ∀ other count, p'.phase = .writingMetadata other count → key ≠ p.key := by
    rintro other count hphase rfl
    refine hnone i p' other count ?_ hmove.same.2 hphase
    rw [puts_set, if_pos rfl]
  have hframe := metadata_frame hmove
  have hbeside : key ≠ p.key → (s.set i dir p').Current key := by
    intro hkey
    have hcurrent : s.Current key := by
      refine h.current key fun j q other count hq hqkey => ?_
      refine hnone j q other count ?_ hqkey
      rw [puts_set, if_neg]
      · exact hq
      · rintro rfl
        cases hp.symm.trans hq
        exact hkey hqkey.symm
    refine hcurrent.congr (hframe.1 key hkey) fun name => (delivered_set hp hmove key name).trans ?_
    exact or_iff_left fun hown => hkey hown.1.symm
  cases hmove with
  | found hphase hfile =>
      exact h.current_set hp (.found hphase hfile) (by rw [hphase]; exact nofun) rfl nofun hnone
  | create hphase hfile =>
      refine h.current_set hp (.create hphase hfile) (by rw [hphase]; exact nofun) ?_ nofun hnone
      exact Dir.file_put_ne _ _ (dataFile_ne_metadataFile _ _).symm
  | writeData hphase hlt =>
      refine h.current_set hp (.writeData hphase hlt) (by rw [hphase]; exact nofun) ?_ nofun hnone
      exact Dir.file_put_ne _ _ (dataFile_ne_metadataFile _ _).symm
  | closeData hphase hlt =>
      exact h.current_set hp (.closeData hphase hlt) (by rw [hphase]; exact nofun) rfl nofun hnone
  | read hphase hr =>
      exact h.current_set hp (.read hphase hr) (by rw [hphase]; exact nofun) rfl nofun hnone
  | merge hphase =>
      exact h.current_set hp (.merge hphase) (by rw [hphase]; exact nofun) rfl nofun hnone
  | truncate | writeMetadata => exact hbeside (hself _ _ rfl)
  | closeMetadata hphase hend => exact h.current_stored hp hphase hend rfl hnone

/-- A request gets on. -/
theorem set (h : s.Merges) (hlawful : models.Lawful) (hkept : (s.set i dir p').Kept)
    (hp : s.puts i = some p) (hmove : Move s.dir p dir p')
    (hserial : p.phase = .readingMetadata .waiting → ¬s.Merging p.key) :
    (s.set i dir p').Merges := by
  obtain ⟨hrequest, hkey⟩ := hmove.same
  have hdelivered := delivered_set hp hmove
  have hown : ∀ {q}, (s.set i dir p').puts i = some q → q = p' := by
    intro q hq
    rw [puts_set, if_pos rfl] at hq
    exact (Option.some.inj hq).symm
  have hothers : ∀ {j q}, j ≠ i → (s.set i dir p').puts j = some q → s.puts j = some q := by
    intro j q hj hq
    rwa [puts_set, if_neg hj] at hq
  have hlists : ∀ {more metadata}, (∀ other, p'.phase ≠ .stored other) →
      s.Lists p.key more metadata → (s.set i dir p').Lists p.key more metadata := by
    intro more metadata hnot hold
    refine hold.congr fun name => (hdelivered p.key name).trans ?_
    exact or_iff_left fun ⟨_, _, other, hphase⟩ => hnot other hphase
  refine ⟨hkept, fun j q hq => ?_, fun j k q t hq ht hqt hqm htm => ?_,
    fun j q hq hphase => h.created_set hp hmove hq hphase,
    fun key hnone => h.current_move hp hmove hnone, fun j q r hq hphase => ?_,
    fun j q metadata hq hphase => ?_, fun j q metadata written hq hphase => ?_⟩
  · rw [puts_set] at hq
    split at hq
    · cases hq
      rw [hrequest]
      exact h.wellFormed i p hp
    · exact h.wellFormed j q hq
  · have hmine : ∀ {k t}, k ≠ i → s.puts k = some t → t.key = p.key → p'.phase.merging = true →
        t.phase.merging = true → False := by
      intro k t hk ht htp hpm htm
      rcases merging_of_move hmove hserial hpm with hbefore | hnot
      · exact hk (h.apart k i t p ht hp htp htm hbefore)
      · exact hnot ⟨k, h.kept.lt ht, t, ht, htp, htm⟩
    by_cases hj : j = i
    · by_cases hk : k = i
      · exact hj.trans hk.symm
      · subst hj
        cases hown hq
        exact (hmine hk (hothers hk ht) (hqt.symm.trans hkey) hqm htm).elim
    · by_cases hk : k = i
      · subst hk
        cases hown ht
        exact (hmine hj (hothers hj hq) (hqt.trans hkey) htm hqm).elim
      · exact h.apart j k q t (hothers hj hq) (hothers hk ht) hqt hqm htm
  · by_cases hj : j = i
    · subst hj
      cases hown hq
      cases hmove with
      | found | closeData =>
          cases hphase
          exact ⟨trivial, nofun⟩
      | read hbefore hr =>
          cases hphase
          exact Reading.of_advance hr (h.reading j p _ hp hbefore).1
      | create | writeData | merge | truncate | writeMetadata | closeMetadata => cases hphase
    · have hq := hothers hj hq
      cases r with
      | waiting => exact ⟨trivial, nofun⟩
      | reading size buffer | ended content =>
          rw [show (s.set i dir p').dir.file (metadataFile q.key) = _ from
            (h.other hp hmove hq hj (by rw [hphase]; rfl)).1]
          exact h.reading j q _ hq hphase
  · by_cases hj : j = i
    · subst hj
      cases hown hq
      cases hmove with
      | merge hbefore =>
          cases hphase
          exact hlists nofun (h.lists_merge hlawful hp hbefore)
      | found | create | writeData | closeData | read | truncate | writeMetadata
      | closeMetadata => cases hphase
    · have hq := hothers hj hq
      exact (h.opening j q metadata hq hphase).congr
        (h.other hp hmove hq hj (by rw [hphase]; rfl)).2
  · by_cases hj : j = i
    · subst hj
      cases hown hq
      cases hmove with
      | truncate hbefore =>
          cases hphase
          exact hlists nofun (h.opening j p _ hp hbefore)
      | writeMetadata hbefore =>
          cases hphase
          exact hlists nofun (h.writing j p _ _ hp hbefore)
      | found | create | writeData | closeData | read | merge | closeMetadata => cases hphase
    · have hq := hothers hj hq
      exact (h.writing j q metadata written hq hphase).congr
        (h.other hp hmove hq hj (by rw [hphase]; rfl)).2

theorem add (h : s.Merges) {request : PutEnvelopeRequest} (hp : Put.start models request = some p)
    (hname : Utf8.WellFormed request.batchOpName) : (s.add p).Merges := by
  obtain ⟨hrequest, _, hcreating⟩ := start_eq hp
  have hnew : ∀ {j q}, (s.add p).puts j = some q → q.phase ≠ .creating → s.puts j = some q := by
    intro j q hq hphase
    rw [puts_add] at hq
    split at hq
    · cases hq
      exact absurd hcreating hphase
    · exact hq
  have hold : ∀ {j q}, s.puts j = some q → (s.add p).puts j = some q := fun hq =>
    puts_add_of_some p (h.kept.absent s.nextPut (Nat.le_refl _)) hq
  have hdelivered : ∀ key name, (s.add p).Delivered key name ↔ s.Delivered key name := by
    intro key name
    constructor
    · rintro ⟨j, q, metadata, hq, hkey, hphase, hname⟩
      exact ⟨j, q, metadata, hnew hq (by rw [hphase]; exact nofun), hkey, hphase, hname⟩
    · rintro ⟨j, q, metadata, hq, hkey, hphase, hname⟩
      exact ⟨j, q, metadata, hold hq, hkey, hphase, hname⟩
  have hmerging : ∀ {phase : Phase}, phase.merging = true → phase ≠ .creating := by
    rintro _ hmerging rfl
    cases hmerging
  refine ⟨h.kept.start hp, fun j q hq => ?_, fun j k q t hq ht heq hqm htm => ?_,
    fun j q hq hphase => h.created j q (hnew hq hphase) hphase, fun key hnone => ?_,
    fun j q r hq hphase => ?_, fun j q metadata hq hphase => ?_,
    fun j q metadata written hq hphase => ?_⟩
  · rw [puts_add] at hq
    split at hq
    · cases hq
      rw [hrequest]
      exact hname
    · exact h.wellFormed j q hq
  · exact h.apart j k q t (hnew hq (hmerging hqm)) (hnew ht (hmerging htm)) heq hqm htm
  · refine (h.current key fun j q other count hq hkey => ?_).congr rfl (hdelivered key)
    exact hnone j q other count (hold hq) hkey
  · exact h.reading j q r (hnew hq (by rw [hphase]; exact nofun)) hphase
  · have hq := hnew hq (by rw [hphase]; exact nofun)
    exact (h.opening j q metadata hq hphase).congr (hdelivered q.key)
  · have hq := hnew hq (by rw [hphase]; exact nofun)
    exact (h.writing j q metadata written hq hphase).congr (hdelivered q.key)

theorem step (h : s.Merges) (hlawful : models.Lawful) {ev : StoreEvent} (hs : s.step ev = some s')
    (hserial : s.Serial ev) : s'.Merges := by
  cases ev with
  | put request =>
      simp only [Store.step] at hs
      split at hs
      · cases hs
        exact h
      · next p hp =>
          cases hs
          exact h.add hp hserial
  | advance i count =>
      have hkept := h.kept.step hs (h.apart_event count)
      simp only [Store.step] at hs
      split at hs
      · cases hs
      · next p hp =>
          obtain ⟨dir, p', rfl, hmove⟩ := advance_cases hs
          exact h.set hlawful hkept hp hmove (hserial p hp)

end Merges

/-! ### What is recorded in the end -/

/-- Every request has been handled. -/
def Done (s : Store models) : Prop :=
  ∀ i < s.nextPut, ∀ p ∈ s.puts i, p.phase.done = true

instance (s : Store models) : Decidable s.Done :=
  inferInstanceAs (Decidable (∀ i < s.nextPut, ∀ p ∈ s.puts i, _))

/-- What is stored and reported of a request: the operators of its key, and what the key was made
of.  The list and the records have the checksum of the key, the single envelope its first twelve
digits without the zeros in front. -/
structure Reported (s : Store models) (mtimeNs : Text → ℕ) (now : ℕ) (p : Put models)
    (metadata : DebugEnvelopeMetadataRecord) : Prop where
  stored : ∃ metaBytes, s.dir.file (metadataFile p.key) = some metaBytes ∧
    models.metadataFromBinary metaBytes = some metadata
  nodup : metadata.batchOpNames.Nodup
  names : ∀ name, name ∈ metadata.batchOpNames ↔
    ∃ j q, s.puts j = some q ∧ q.key = p.key ∧ q.request.batchOpName = name
  listed : ∃ entry ∈ envelopeList models s.dir mtimeNs .all,
    entry.key = p.key ∧ entry.epochIndex = p.epochIndex ∧ entry.endpointsType = p.knownType ∧
      entry.checksum = p.checksum ∧ entry.batchOpNames = metadata.batchOpNames
  got : ∃ response, envelopeGet models s.dir mtimeNs p.key = some response ∧
    response.key = p.key ∧ response.epochIndex = p.epochIndex ∧
      response.endpointsType = p.knownType ∧ response.batchOpNames = metadata.batchOpNames ∧
        padStart MetadataChecksumHexChars 48 response.checksum =
          p.checksum.take MetadataChecksumHexChars
  loaded : ∃ group ∈ readEnvelopeRecordsFromDir models s.dir .none now,
    group.epoch = p.epochIndex ∧ ∃ record ∈ group.envelopes,
      record.endpointsType = p.knownType ∧ record.checksum = p.checksum ∧
        record.metadata = metadata

theorem wrote_data {q : Put models} {key : Text} {bytes : Bytes}
    (h : (dataFile key, bytes) ∈ q.wrote) : q.key = key ∧ bytes = q.request.envelopeData := by
  rcases List.mem_append.mp h with hdata | hmetadata
  · split at hdata
    · obtain ⟨hname, hbytes⟩ := Prod.mk.inj (List.mem_singleton.mp hdata)
      exact ⟨(dataFile_inj.mp hname).symm, hbytes⟩
    · cases hdata
  · split at hmetadata
    · have hname := congrArg Prod.fst (List.mem_singleton.mp hmetadata)
      exact absurd hname (dataFile_ne_metadataFile _ _)
    · cases hmetadata

theorem dot_not_mem_key (hlawful : models.Lawful) (p : Put models) : 46 ∉ p.key := by
  intro hmem
  rcases List.mem_append.mp hmem with hepoch | hrest
  · exact (digit_plain (isDigit_epochText hepoch)).2.2.2 rfl
  · rcases List.mem_cons.mp hrest with hdash | hrest
    · exact absurd hdash (by decide)
    · rcases List.mem_append.mp hrest with hendpoints | hrest
      · exact dot_not_mem_endpointsText hlawful.endpoints _ hendpoints
      · rcases List.mem_cons.mp hrest with hdash | hchecksum
        · exact absurd hdash (by decide)
        · have hdigit := (hlawful.digest p.request.envelopeData).2.not_mem.2
          exact hdigit (List.mem_of_mem_take hchecksum)

theorem parse_key (hlawful : models.Lawful) (p : Put models) :
    parseEnvelopeStorageKey p.key = some ⟨p.key, p.epochIndex, p.endpointsKey, p.checksum⟩ :=
  parse_storageKey p.epochIndex p.endpointsKey fun hmem =>
    (hlawful.digest p.request.envelopeData).2.not_mem.1 (List.mem_of_mem_take hmem)

/-- The checksum of a metadata record is the front of that of the key, without leading zeros. -/
theorem padStart_packed (hlawful : models.Lawful) (p : Put models) :
    padStart MetadataChecksumHexChars 48 (hexText (packedChecksum p.checksum)) =
      p.checksum.take MetadataChecksumHexChars := by
  obtain ⟨hlength, hhex⟩ := hlawful.digest p.request.envelopeData
  have htake : (p.checksum.take MetadataChecksumHexChars).length = MetadataChecksumHexChars := by
    rw [Put.checksum, List.length_take, List.length_take, hlength]
    rfl
  have hne : p.checksum.take MetadataChecksumHexChars ≠ [] := by
    intro hnil
    rw [hnil] at htake
    cases htake
  have hpad := padStart_hexText _ hne fun c hc =>
    hhex c (List.mem_of_mem_take (List.mem_of_mem_take hc))
  rw [htake] at hpad
  exact hpad

section done
variable {s : Store models} (h : s.Merges) (hdone : s.Done)
include h hdone

theorem Merges.stored_of_done {j : ℕ} {q : Put models} (hq : s.puts j = some q) :
    ∃ metadata, q.phase = .stored metadata := by
  have hphase := hdone j (h.kept.lt hq) q hq
  cases heq : q.phase <;> rw [heq] at hphase <;> cases hphase
  exact ⟨_, rfl⟩

/-- Every request for the key has been delivered. -/
theorem Merges.delivered_iff_of_done {key name : Text} : s.Delivered key name ↔
    ∃ j q, s.puts j = some q ∧ q.key = key ∧ q.request.batchOpName = name := by
  constructor
  · rintro ⟨j, q, _, hq, hkey, _, hname⟩
    exact ⟨j, q, hq, hkey, hname⟩
  · rintro ⟨j, q, hq, hkey, hname⟩
    obtain ⟨metadata, hphase⟩ := h.stored_of_done hdone hq
    exact ⟨j, q, metadata, hq, hkey, hphase, hname⟩

theorem Merges.current_of_done (key : Text) : s.Current key := by
  refine h.current key fun j q other count hq _ hwriting => ?_
  obtain ⟨metadata, hphase⟩ := h.stored_of_done hdone hq
  cases hphase.symm.trans hwriting

/-- A data file holds the whole envelope of a request. -/
theorem Merges.decoded_of_done {key : Text} {content : Bytes}
    (hcontent : s.dir.file (dataFile key) = some content) :
    ∃ envelope, models.envelopeFromBinary content = some envelope := by
  rcases h.kept.whole _ _ hcontent with ⟨j, bytes, written, q, hq, hwriting⟩ | hwrote
  · obtain ⟨other, hphase⟩ := h.stored_of_done hdone hq
    rw [Put.writing, hphase] at hwriting
    cases hwriting
  · obtain ⟨j, _, q, _, hmem⟩ := hwrote
    obtain ⟨_, rfl⟩ := wrote_data hmem
    exact ⟨q.envelope, q.decoded⟩

end done

/-- When requests of a key have been handled one after the other, every operator is listed once,
and what a key was made of is read off it. -/
theorem deliveries_recorded (hlawful : models.Lawful) {events : List StoreEvent}
    {s : Store models} (h : runs step init events = some s)
    (hserial : Along step Serial (init : Store models) events) (hdone : s.Done)
    (mtimeNs : Text → ℕ) (now i : ℕ) (p : Put models) (hp : s.puts i = some p) :
    ∃ metadata, s.Reported mtimeNs now p metadata := by
  have hmerges : s.Merges := along_induction h hserial merges_init
    fun m m' ev hserial hstep hm => hm.step hlawful hstep hserial
  have hdelivered {name : Text} := @Merges.delivered_iff_of_done _ _ hmerges hdone p.key name
  rcases hmerges.current_of_done hdone p.key with ⟨_, hno⟩ | ⟨metadata, hfile, hlists⟩
  · exact absurd (hdelivered.mpr ⟨i, p, hp, rfl, rfl⟩) (hno p.request.batchOpName)
  · have hread := hmerges.read_lists hlawful hlists
    obtain ⟨content, hcontent⟩ : ∃ content, s.dir.file (dataFile p.key) = some content := by
      obtain ⟨other, hphase⟩ := hmerges.stored_of_done hdone hp
      exact hmerges.created i p hp (by rw [hphase]; exact nofun)
    obtain ⟨envelope, hdecoded⟩ := hmerges.decoded_of_done hdone hcontent
    have hparsed := parse_key hlawful p
    have htype : resolveEndpointsType models.DebugOutpostEndpointsType p.endpointsKey =
        p.knownType := resolve_endpointsText hlawful.endpoints _
    obtain ⟨q, hqkey, hchecksum⟩ := hlists.checksum
    have hpacked : metadata.checksum = packedChecksum p.checksum := by
      rw [hchecksum, checksum_of_key hlawful hqkey]
    have hlisted :=
      mem_envelopeList hparsed (dot_not_mem_key hlawful p) hcontent hfile hread mtimeNs
    have hgot := envelopeGet_eq hparsed hcontent hfile hread mtimeNs
    have hpair : decodePair models ⟨p.key, p.epochIndex, p.endpointsKey, p.checksum⟩ content
        (models.metadataToBinary metadata) now = some
          { epoch := p.epochIndex
            record :=
              { checksum := p.checksum
                endpointsType :=
                  resolveEndpointsType models.DebugOutpostEndpointsType p.endpointsKey
                envelope := envelope
                metadata := metadata
                receivedAt := now } } := by
      rw [decodePair, hdecoded, Option.bind_some, hread, Option.map_some]
    obtain ⟨group, hgroup, hepoch, hrecord⟩ := mem_readEnvelopeRecords hparsed hcontent hfile hpair
    refine ⟨metadata, ⟨⟨_, hfile, hread⟩, hlists.nodup, fun name => ?_,
      ⟨_, hlisted, rfl, rfl, htype, rfl, rfl⟩, ⟨_, hgot, rfl, rfl, htype, rfl, ?_⟩,
      ⟨group, hgroup, hepoch, _, hrecord, htype, rfl, rfl⟩⟩⟩
    · rw [hlists.names, hdelivered]
      exact or_iff_left nofun
    · dsimp only
      rw [hpacked]
      exact padStart_packed hlawful p

/-! ### Sample runs -/

def request (batchOpName : Text) (endpointsType : ℕ) : StoreEvent :=
  .put ⟨[], batchOpName, endpointsType⟩

def advances (i calls : ℕ) : List StoreEvent :=
  List.replicate calls (.advance i 64)

/-- Two operators deliver one envelope, one of them twice and for other endpoints too, and a third
names endpoints that are not known. -/
def delivered : List StoreEvent :=
  [request (text "alice") 1, request (text "bob") 1, request (text "alice") 2] ++ advances 0 2 ++
    advances 1 1 ++ advances 2 3 ++ advances 0 5 ++ advances 2 2 ++ advances 1 6 ++ advances 2 2 ++
    request (text "alice") 1 :: advances 3 7 ++ request (text "carol") 9 :: advances 4 7

theorem deliveries_recorded_delivered : ∃ (s : Store emptyModels) (p : Put emptyModels),
    runs step init delivered = some s ∧ s.puts 1 = some p ∧
      ∃ metadata, s.Reported (fun _ => 0) 0 p metadata := by
  obtain ⟨s, hrun, hdone, hput⟩ : ∃ s : Store emptyModels, runs step init delivered = some s ∧
      s.Done ∧ (s.puts 1).isSome := exists_run (by decide +kernel)
  obtain ⟨p, hp⟩ := Option.isSome_iff_exists.mp hput
  exact ⟨s, p, hrun, hp,
    deliveries_recorded emptyModels_lawful hrun (by decide +kernel) hdone _ _ 1 p hp⟩

/-- Both requests read the metadata before one of them writes it. -/
def overlapping : List StoreEvent :=
  [request (text "alice") 1, request (text "bob") 1] ++ advances 0 3 ++ advances 1 2 ++
    advances 0 4 ++ advances 1 4

def single : List StoreEvent :=
  request (text "alice") 1 :: advances 0 7

/-- An operator is lost; the list and the single envelope report different checksums. -/
theorem delivery_lost_or_checksums_differ :
    (∃ s : Store emptyModels, runs step init overlapping = some s ∧ s.Done ∧
      ¬∀ i < s.nextPut, ∀ p ∈ s.puts i, p.request.batchOpName ∈
        readMetadataBatchOpNames emptyModels (s.dir.file (metadataFile p.key))) ∧
    ∃ s : Store emptyModels, runs step init single = some s ∧ s.Done ∧
      ¬∀ entry ∈ envelopeList emptyModels s.dir (fun _ => 0) .all,
        ∀ response ∈ envelopeGet emptyModels s.dir (fun _ => 0) entry.key,
          response.checksum = entry.checksum := by
  constructor
  · exact exists_run (by decide +kernel)
  · exact exists_run (by decide +kernel)

end Store

end WireTools.EnvelopeStorage
