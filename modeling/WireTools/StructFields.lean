import Mathlib.Data.List.Perm.Subperm
import Mathlib.Logic.Relation
import WireTools.SchemaCatalog

/-! # Struct fields of an ABI

An ABI refers to its structs by name: a typedef to another type, and a struct to its base.  A node
may serve typedefs and bases that run in circles.

* `Evaluates`: the structs whose fields the source collects, as its recursion goes;
  `structFields_iff`: the bound on the depth cuts off no recursion that ends;
* `Leads`, `TypedefsEnd` and `Lineage`: the typedef chain of a type, that all chains of a type and
  its bases end, and the structs that such a type has, outermost base first and each one once;
* `Meets`: the recursion ends, and it has collected the lineage if the chains end;
* `meets_iff`: that is so exactly when the walk of the source ends and one typedef leads it to the
  struct that the whole chain leads to. -/

namespace WireTools.SchemaCatalog

/-! ### The walk of the source -/

/-- The type that a typedef stands for. -/
def typedefOf (abi : Abi) (typeName : Text) : Option Text :=
  (abi.types.find? fun d => d.newTypeName = typeName).map (·.type)

def structNamed (abi : Abi) (name : Text) : Option AbiStruct :=
  abi.structs.find? fun s => s.name = name

/-- The struct of a type, behind one typedef at most. -/
def structOf (abi : Abi) (typeName : Text) : Option AbiStruct :=
  structNamed abi ((typedefOf abi typeName).getD typeName)

/-- The structs whose fields are put one behind the other. -/
inductive Evaluates (abi : Abi) : Text → List AbiStruct → Prop
  | noStruct {t : Text} (h : structOf abi t = none) : Evaluates abi t []
  | noBase {t : Text} {s : AbiStruct} (h : structOf abi t = some s) (hbase : s.base = []) :
      Evaluates abi t [s]
  | base {t : Text} {s : AbiStruct} {structs : List AbiStruct} (h : structOf abi t = some s)
      (hbase : s.base ≠ []) (hrest : Evaluates abi s.base structs) :
      Evaluates abi t (structs ++ [s])

variable {abi : Abi} {t u r : Text} {s : AbiStruct} {structs structs' : List AbiStruct}

/-- One call of the source. -/
theorem structFieldsFrom_succ (fuel : ℕ) : structFieldsFrom abi (fuel + 1) t =
    match structOf abi t with
    | none => some []
    | some s =>
        if s.base = [] then some s.fields
        else (structFieldsFrom abi fuel s.base).map (· ++ s.fields) := rfl

theorem Evaluates.unique (h : Evaluates abi t structs) (h' : Evaluates abi t structs') :
    structs = structs' := by
  induction h generalizing structs' with
  | noStruct hnone =>
      cases h' with
      | noStruct _ => rfl
      | noBase hsome _ => cases hnone.symm.trans hsome
      | base hsome _ _ => cases hnone.symm.trans hsome
  | noBase hsome hbase =>
      cases h' with
      | noStruct hnone => cases hsome.symm.trans hnone
      | noBase hsome' _ =>
          cases hsome.symm.trans hsome'
          rfl
      | base hsome' hbase' _ =>
          cases hsome.symm.trans hsome'
          exact absurd hbase hbase'
  | base hsome hbase _ ih =>
      cases h' with
      | noStruct hnone => cases hsome.symm.trans hnone
      | noBase hsome' hbase' =>
          cases hsome.symm.trans hsome'
          exact absurd hbase' hbase
      | base hsome' _ hrest' =>
          cases hsome.symm.trans hsome'
          rw [ih hrest']

/-- Whatever is collected is a struct of the ABI. -/
theorem Evaluates.subset (h : Evaluates abi t structs) : structs ⊆ abi.structs := by
  induction h with
  | noStruct _ => exact List.nil_subset _
  | noBase h _ => exact List.cons_subset.mpr ⟨List.mem_of_find?_eq_some h, List.nil_subset _⟩
  | base h _ _ ih =>
      exact List.append_subset.mpr
        ⟨ih, List.cons_subset.mpr ⟨List.mem_of_find?_eq_some h, List.nil_subset _⟩⟩

/-- What stands before a struct was collected for its base. -/
theorem Evaluates.before (h : Evaluates abi t structs) (hs : s ∈ structs) (hbase : s.base ≠ []) :
    ∃ front behind, structs = front ++ s :: behind ∧ Evaluates abi s.base front := by
  induction h with
  | noStruct _ => cases hs
  | noBase _ hnil =>
      rw [List.mem_singleton.mp hs] at hbase
      exact absurd hnil hbase
  | @base t s' structs _ _ hrest ih =>
      rcases List.mem_append.mp hs with hmem | hmem
      · obtain ⟨front, behind, rfl, hfront⟩ := ih hmem
        exact ⟨front, behind ++ [s'], by rw [List.append_assoc, List.cons_append], hfront⟩
      · rw [List.mem_singleton.mp hmem]
        exact ⟨structs, [], rfl, hrest⟩

/-- A walk that ends passes no struct twice. -/
theorem Evaluates.nodup (h : Evaluates abi t structs) : structs.Nodup := by
  induction h with
  | noStruct _ => exact List.nodup_nil
  | noBase _ _ => exact List.nodup_singleton _
  | @base t s structs _ hbase hrest ih =>
      refine List.nodup_append.mpr ⟨ih, List.nodup_singleton s, fun a ha b hb => ?_⟩
      rintro rfl
      rw [List.mem_singleton] at hb
      subst hb
      obtain ⟨front, behind, hsplit, hfront⟩ := hrest.before ha hbase
      have hlength := congrArg List.length hsplit
      rw [hrest.unique hfront, List.length_append, List.length_cons] at hlength
      omega

theorem Evaluates.structFieldsFrom (h : Evaluates abi t structs) {fuel : ℕ}
    (hfuel : structs.length < fuel + 1) :
    SchemaCatalog.structFieldsFrom abi (fuel + 1) t = some (structs.flatMap AbiStruct.fields) := by
  induction h generalizing fuel with
  | noStruct h => rw [structFieldsFrom_succ, h]; rfl
  | noBase h hbase =>
      rw [structFieldsFrom_succ, h]
      dsimp only
      rw [if_pos hbase, List.flatMap_cons, List.flatMap_nil, List.append_nil]
  | @base t s structs h hbase _ ih =>
      rw [List.length_append, List.length_singleton] at hfuel
      obtain ⟨fuel, rfl⟩ : ∃ n, fuel = n + 1 := ⟨fuel - 1, by omega⟩
      rw [structFieldsFrom_succ, h]
      dsimp only
      rw [if_neg hbase, ih (by omega), Option.map_some, List.flatMap_append, List.flatMap_cons,
        List.flatMap_nil, List.append_nil]

/-- The fields are those of the structs that the recursion collects, whenever it ends. -/
theorem structFields_iff {fields : List AbiField} : structFields abi t = some fields ↔
    ∃ structs, Evaluates abi t structs ∧ fields = structs.flatMap AbiStruct.fields := by
  constructor
  · unfold structFields
    generalize abi.structs.length + 1 = fuel
    intro h
    induction fuel generalizing t fields with
    | zero => cases h
    | succ fuel ih =>
        rw [structFieldsFrom_succ] at h
        cases hs : structOf abi t with
        | none =>
            rw [hs] at h
            cases h
            exact ⟨[], .noStruct hs, rfl⟩
        | some s =>
            rw [hs] at h
            dsimp only at h
            split at h
            · next hbase =>
                cases h
                refine ⟨[s], .noBase hs hbase, ?_⟩
                rw [List.flatMap_cons, List.flatMap_nil, List.append_nil]
            · next hbase =>
                obtain ⟨rest, hrest, rfl⟩ := Option.map_eq_some_iff.mp h
                obtain ⟨structs, heval, rfl⟩ := ih hrest
                refine ⟨structs ++ [s], .base hs hbase heval, ?_⟩
                rw [List.flatMap_append, List.flatMap_cons, List.flatMap_nil, List.append_nil]
  · rintro ⟨structs, heval, rfl⟩
    have hlength : structs.length ≤ abi.structs.length :=
      (List.subperm_of_subset heval.nodup heval.subset).length_le
    exact heval.structFieldsFrom (Nat.lt_succ_of_le hlength)

/-! ### What is asked -/

/-- A type at the end of the typedef chain of another one. -/
def Leads (abi : Abi) (t r : Text) : Prop :=
  Relation.ReflTransGen (fun a b => typedefOf abi a = some b) t r ∧ typedefOf abi r = none

/-- The base of the struct at the end of the chain. -/
def IsBase (abi : Abi) (t u : Text) : Prop :=
  ∃ r s, Leads abi t r ∧ structNamed abi r = some s ∧ s.base ≠ [] ∧ s.base = u

/-- The typedef chains of a type and of every base it has come to an end. -/
def TypedefsEnd (abi : Abi) (t : Text) : Prop :=
  ∀ u, Relation.ReflTransGen (IsBase abi) t u → ∃ r, Leads abi u r

/-- The structs of a type, outermost base first, but for those that have been passed. -/
inductive Lineage (abi : Abi) : List AbiStruct → Text → List AbiStruct → Prop
  | noStruct {passed : List AbiStruct} {t r : Text} (hr : Leads abi t r)
      (h : structNamed abi r = none) : Lineage abi passed t []
  | again {passed : List AbiStruct} {t r : Text} {s : AbiStruct} (hr : Leads abi t r)
      (h : structNamed abi r = some s) (hpassed : s ∈ passed) : Lineage abi passed t []
  | noBase {passed : List AbiStruct} {t r : Text} {s : AbiStruct} (hr : Leads abi t r)
      (h : structNamed abi r = some s) (hnew : s ∉ passed) (hbase : s.base = []) :
      Lineage abi passed t [s]
  | base {passed : List AbiStruct} {t r : Text} {s : AbiStruct} {structs : List AbiStruct}
      (hr : Leads abi t r) (h : structNamed abi r = some s) (hnew : s ∉ passed)
      (hbase : s.base ≠ []) (hrest : Lineage abi (s :: passed) s.base structs) :
      Lineage abi passed t (structs ++ [s])

/-- The fields of some structs are returned, and these are the lineage if all chains end. -/
def Meets (abi : Abi) (t : Text) : Prop :=
  ∃ structs, structFields abi t = some (structs.flatMap AbiStruct.fields) ∧
    Evaluates abi t structs ∧ (TypedefsEnd abi t → Lineage abi [] t structs)

/-! ### When it is done -/

/-- The base of the struct behind one typedef at most. -/
def Follows (abi : Abi) (t u : Text) : Prop :=
  ∃ s, structOf abi t = some s ∧ s.base ≠ [] ∧ s.base = u

/-- From base to base, the walk of the source comes to a type without one. -/
def BasesEnd (abi : Abi) (t : Text) : Prop :=
  ∃ u, Relation.ReflTransGen (Follows abi) t u ∧ ∀ v, ¬ Follows abi u v

/-- The walk from one type comes to another, behind some structs. -/
inductive Passes (abi : Abi) : Text → List AbiStruct → Text → Prop
  | here {t : Text} : Passes abi t [] t
  | base {t u : Text} {s : AbiStruct} {passed : List AbiStruct} (h : structOf abi t = some s)
      (hbase : s.base ≠ []) (hrest : Passes abi s.base passed u) : Passes abi t (passed ++ [s]) u

/-- Wherever the walk comes, one typedef leads to the struct at the end of the chain, or to none
where that one has been passed. -/
def OneTypedef (abi : Abi) (t : Text) : Prop :=
  ∀ passed u r, Passes abi t passed u → Leads abi u r →
    structOf abi u = (structNamed abi r).filter fun s => s ∉ passed

theorem Leads.unique {r' : Text} (h : Leads abi t r) (h' : Leads abi t r') : r = r' := by
  obtain ⟨hpath, hend⟩ := h
  induction hpath using Relation.ReflTransGen.head_induction_on with
  | refl =>
      rcases Relation.ReflTransGen.cases_head h'.1 with heq | ⟨v, hstep, _⟩
      · exact heq
      · cases hend.symm.trans hstep
  | head hstep _ ih =>
      rcases Relation.ReflTransGen.cases_head h'.1 with rfl | ⟨v, hstep', hrest⟩
      · cases h'.2.symm.trans hstep
      · cases hstep.symm.trans hstep'
        exact ih ⟨hrest, h'.2⟩

/-- The recursion ends when its walk does. -/
theorem basesEnd_iff : BasesEnd abi t ↔ ∃ structs, Evaluates abi t structs := by
  constructor
  · rintro ⟨u, hwalk, hend⟩
    induction hwalk using Relation.ReflTransGen.head_induction_on with
    | refl =>
        cases hs : structOf abi u with
        | none => exact ⟨[], .noStruct hs⟩
        | some s =>
            have hbase : s.base = [] := by
              by_contra hbase
              exact hend s.base ⟨s, hs, hbase, rfl⟩
            exact ⟨[s], .noBase hs hbase⟩
    | head hstep _ ih =>
        obtain ⟨s, hs, hbase, rfl⟩ := hstep
        obtain ⟨structs, heval⟩ := ih
        exact ⟨structs ++ [s], .base hs hbase heval⟩
  · rintro ⟨structs, heval⟩
    induction heval with
    | noStruct h =>
        refine ⟨_, .refl, ?_⟩
        rintro v ⟨s, hs, _, _⟩
        cases h.symm.trans hs
    | noBase h hbase =>
        refine ⟨_, .refl, ?_⟩
        rintro v ⟨s, hs, hbase', _⟩
        cases h.symm.trans hs
        exact hbase' hbase
    | base h hbase _ ih =>
        obtain ⟨u, hwalk, hend⟩ := ih
        exact ⟨u, .head ⟨_, h, hbase, rfl⟩ hwalk, hend⟩

/-- The condition for a walk that has passed some structs before. -/
def OneTypedefBehind (abi : Abi) (before : List AbiStruct) (t : Text) : Prop :=
  ∀ passed u r, Passes abi t passed u → Leads abi u r →
    structOf abi u = (structNamed abi r).filter fun s => s ∉ passed ++ before

theorem OneTypedefBehind.base {before : List AbiStruct} (h : OneTypedefBehind abi before t)
    (hs : structOf abi t = some s) (hbase : s.base ≠ []) :
    OneTypedefBehind abi (s :: before) s.base := by
  intro passed u r hpasses hr
  have hhere := h (passed ++ [s]) u r (.base hs hbase hpasses) hr
  rwa [List.append_assoc, List.singleton_append] at hhere

/-- The walk collects the lineage, when one typedef is enough. -/
theorem Evaluates.lineage (h : Evaluates abi t structs) {before : List AbiStruct}
    (hone : OneTypedefBehind abi before t) (hend : TypedefsEnd abi t) :
    Lineage abi before t structs := by
  induction h generalizing before with
  | @noStruct t hnone =>
      obtain ⟨r, hr⟩ := hend t .refl
      have hhere := hone [] t r .here hr
      rw [hnone, List.nil_append] at hhere
      cases hs : structNamed abi r with
      | none => exact .noStruct hr hs
      | some s =>
          refine .again hr hs ?_
          by_contra hnew
          rw [hs, Option.filter_some, if_pos (by simpa using hnew)] at hhere
          cases hhere
  | @noBase t s hsome hbase =>
      obtain ⟨r, hr⟩ := hend t .refl
      have hhere := hone [] t r .here hr
      rw [hsome, List.nil_append] at hhere
      obtain ⟨hs, hnew⟩ := Option.filter_eq_some_iff.mp hhere.symm
      exact .noBase hr hs (by simpa using hnew) hbase
  | @base t s structs hsome hbase _ ih =>
      obtain ⟨r, hr⟩ := hend t .refl
      have hhere := hone [] t r .here hr
      rw [hsome, List.nil_append] at hhere
      obtain ⟨hs, hnew⟩ := Option.filter_eq_some_iff.mp hhere.symm
      refine .base hr hs (by simpa using hnew) hbase (ih (hone.base hsome hbase) ?_)
      exact fun u hu => hend u (.head ⟨r, s, hr, hs, hbase, rfl⟩ hu)

/-- A lineage, by the struct at the end of the chain. -/
theorem Lineage.at_end {before : List AbiStruct} (h : Lineage abi before t structs)
    (hr : Leads abi t r) :
    (structs = [] ∧ ∀ s, structNamed abi r = some s → s ∈ before) ∨
    ∃ s, structNamed abi r = some s ∧ s ∉ before ∧
      ((s.base = [] ∧ structs = [s]) ∨
        (s.base ≠ [] ∧ ∃ rest, structs = rest ++ [s] ∧ Lineage abi (s :: before) s.base rest)) := by
  cases h with
  | noStruct hr' hnone =>
      obtain rfl := hr.unique hr'
      refine Or.inl ⟨rfl, fun s hs => ?_⟩
      cases hnone.symm.trans hs
  | again hr' hsome hpassed =>
      obtain rfl := hr.unique hr'
      refine Or.inl ⟨rfl, fun s hs => ?_⟩
      cases hsome.symm.trans hs
      exact hpassed
  | noBase hr' hsome hnew hbase =>
      obtain rfl := hr.unique hr'
      exact Or.inr ⟨_, hsome, hnew, Or.inl ⟨hbase, rfl⟩⟩
  | base hr' hsome hnew hbase hrest =>
      obtain rfl := hr.unique hr'
      exact Or.inr ⟨_, hsome, hnew, Or.inr ⟨hbase, _, rfl, hrest⟩⟩

theorem Lineage.leads {before : List AbiStruct} (h : Lineage abi before t structs) :
    ∃ r, Leads abi t r := by
  cases h with
  | noStruct hr _ => exact ⟨_, hr⟩
  | again hr _ _ => exact ⟨_, hr⟩
  | noBase hr _ _ _ => exact ⟨_, hr⟩
  | base hr _ _ _ _ => exact ⟨_, hr⟩

theorem Lineage.last {before : List AbiStruct} (h : Lineage abi before t (structs ++ [s]))
    (hr : Leads abi t r) : structNamed abi r = some s ∧ s ∉ before ∧
      (s.base ≠ [] → Lineage abi (s :: before) s.base structs) := by
  rcases h.at_end hr with ⟨hnil, _⟩ | ⟨s', hs', hnew, ⟨hbase, hone⟩ | ⟨hbase, rest, hrest, hlin⟩⟩
  · exact absurd hnil (List.append_ne_nil_of_right_ne_nil _ (List.cons_ne_nil _ _))
  · obtain ⟨rfl, hs⟩ := List.append_inj' (hone.trans (List.nil_append [s']).symm) rfl
    cases hs
    exact ⟨hs', hnew, fun hne => absurd hbase hne⟩
  · obtain ⟨rfl, hs⟩ := List.append_inj' hrest rfl
    cases hs
    exact ⟨hs', hnew, fun _ => hlin⟩

/-- Where the walk collects the lineage, one typedef was enough. -/
theorem Evaluates.oneTypedef (h : Evaluates abi t structs) {before : List AbiStruct}
    (hlin : Lineage abi before t structs) : OneTypedefBehind abi before t := by
  induction h generalizing before with
  | @noStruct t hnone =>
      intro passed u r hpasses hr
      cases hpasses with
      | base hsome _ _ => cases hnone.symm.trans hsome
      | here =>
          rw [hnone, List.nil_append]
          rcases hlin.at_end hr with ⟨_, hbefore⟩ | ⟨s, _, _, ⟨_, hone⟩ | ⟨_, rest, hrest, _⟩⟩
          · refine (Option.filter_eq_none_iff.mpr fun s hs => ?_).symm
            simpa using hbefore s hs
          · cases hone
          · exact absurd hrest.symm
              (List.append_ne_nil_of_right_ne_nil _ (List.cons_ne_nil _ _))
  | @noBase t s hsome hbase =>
      intro passed u r hpasses hr
      cases hpasses with
      | base hsome' hbase' _ =>
          cases hsome.symm.trans hsome'
          exact absurd hbase hbase'
      | here =>
          have hlast : Lineage abi before t ([] ++ [s]) := hlin
          obtain ⟨hs, hnew, _⟩ := hlast.last hr
          rw [hsome, List.nil_append, hs, Option.filter_some, if_pos (by simpa using hnew)]
  | @base t s structs hsome hbase _ ih =>
      intro passed u r hpasses hr
      cases hpasses with
      | base hsome' _ hrest =>
          cases hsome.symm.trans hsome'
          obtain ⟨r', hr'⟩ := hlin.leads
          have hbehind := ih ((hlin.last hr').2.2 hbase) _ u r hrest hr
          rwa [List.append_assoc, List.singleton_append]
      | here =>
          obtain ⟨hs, hnew, _⟩ := hlin.last hr
          rw [hsome, List.nil_append, hs, Option.filter_some, if_pos (by simpa using hnew)]

theorem oneTypedef_iff : OneTypedef abi t ↔ OneTypedefBehind abi [] t := by
  unfold OneTypedef OneTypedefBehind
  simp only [List.append_nil]

/-- The fields of every type whose walk ends, when one typedef is as good as the chain. -/
theorem meets_iff (abi : Abi) (t : Text) :
    Meets abi t ↔ BasesEnd abi t ∧ (TypedefsEnd abi t → OneTypedef abi t) := by
  rw [basesEnd_iff]
  constructor
  · rintro ⟨structs, _, heval, hlineage⟩
    exact ⟨⟨structs, heval⟩, fun hend => oneTypedef_iff.mpr (heval.oneTypedef (hlineage hend))⟩
  · rintro ⟨⟨structs, heval⟩, hone⟩
    refine ⟨structs, structFields_iff.mpr ⟨structs, heval, rfl⟩, heval, fun hend => ?_⟩
    exact heval.lineage (oneTypedef_iff.mp (hone hend)) hend

/-- A struct that is its own base. -/
def ownBase : Abi :=
  ⟨[], [⟨text "row", text "row", [⟨text "id", text "uint64"⟩]⟩], []⟩

/-- A struct behind two typedefs. -/
def twoTypedefs : Abi :=
  ⟨[⟨text "a", text "b"⟩, ⟨text "b", text "row"⟩],
    [⟨text "row", [], [⟨text "id", text "uint64"⟩]⟩], []⟩

theorem two_typedefs_lead : Leads twoTypedefs (text "a") (text "row") :=
  ⟨.head (b := text "b") (by decide) (.single (by decide)), by decide⟩

theorem typedefsEnd_two : TypedefsEnd twoTypedefs (text "a") := by
  intro u hu
  rcases Relation.ReflTransGen.cases_head hu with rfl | ⟨v, ⟨r, s, _, hs, hbase, _⟩, _⟩
  · exact ⟨_, two_typedefs_lead⟩
  · have hmem : s ∈ twoTypedefs.structs := List.mem_of_find?_eq_some hs
    rw [List.mem_singleton.mp hmem] at hbase
    exact absurd rfl hbase

/-- Following the base of the one struct has no end, and the fields of the other are not found. -/
theorem endless_or_missed : ¬ Meets ownBase (text "row") ∧ ¬ Meets twoTypedefs (text "a") := by
  constructor
  · rintro ⟨structs, hsome, _⟩
    have hnone : structFields ownBase (text "row") = none := by decide
    cases hnone.symm.trans hsome
  · rintro ⟨structs, _, heval, hlineage⟩
    have hempty : Evaluates twoTypedefs (text "a") [] := .noStruct (by decide)
    obtain rfl := heval.unique hempty
    rcases (hlineage typedefsEnd_two).at_end two_typedefs_lead with
      ⟨_, hpassed⟩ | ⟨s, _, _, ⟨_, hone⟩ | ⟨_, rest, hrest, _⟩⟩
    · exact absurd (hpassed _ (by decide : structNamed twoTypedefs (text "row") =
        some ⟨text "row", [], [⟨text "id", text "uint64"⟩]⟩)) List.not_mem_nil
    · cases hone
    · exact absurd hrest.symm (List.append_ne_nil_of_right_ne_nil _ (List.cons_ne_nil _ _))

end WireTools.SchemaCatalog
