import KernelFootprint.Proofs.Delivery
import KernelFootprint.Proofs.Unbounded
import Mathlib.Algebra.BigOperators.Group.List.Basic
import Mathlib.Data.List.Induction

/-!
# Groups of estimates

The estimates of a map are put one by one into the groups of their allocations. Allocations
that serve as keys are equal if their keys are, whatever their spelling, so that the group of
an allocation holds what a filter for this allocation keeps. Filters keep what all of their
fields allow, in whichever order these are looked at. The groups share nothing and leave out
nothing, and their totals add up to the total of the map, up to multiples of 2 ^ 64.
-/

namespace KernelFootprint

open Estimation

theorem AccessKey.beq_of_allocation_ne {first second : AccessKey}
    (different : (first.allocation == second.allocation) = false) :
    (first == second) = false := by
  change (_ && (first.allocation == second.allocation) && _) = false
  rw [different, Bool.and_false, Bool.false_and]

namespace Register

variable {Entry : Type} {key other : Datum} {entry : Entry} {entries : List (Datum × Entry)}

/-- Of data that serve as keys, those are equal that are one key. -/
theorem beq_iff_key? (serves : key.isKey = true) (otherServes : other.isKey = true) :
    (key == other) = true ↔ key.key? = other.key? := by
  rw [Datum.beq_eq_key?_beq serves otherServes, beq_iff_eq]

theorem find_insert_of_isKey (serves : key.isKey = true) (otherServes : other.isKey = true)
    (keyed : ∀ entry ∈ entries, entry.1.isKey = true) :
    find other (insert key entry entries) =
      if key == other then some entry else find other entries := by
  induction entries with
  | nil => rfl
  | cons first rest ih =>
      obtain ⟨onFirst, onRest⟩ := List.forall_mem_cons.mp keyed
      have onward := ih onRest
      obtain ⟨name, old⟩ := first
      have replaces := beq_iff_key? onFirst serves
      have finds := beq_iff_key? onFirst otherServes
      have same := beq_iff_key? serves otherServes
      rw [insert]
      by_cases replaced : (name == key) = true
      · have follows : (name == other) = (key == other) := by
          rw [Bool.eq_iff_iff, finds, same, replaces.mp replaced]
        rw [if_pos replaced, find, find, follows]
        split <;> rfl
      · rw [if_neg replaced, find, find, onward]
        by_cases found : (name == other) = true
        · have different : ¬ (key == other) = true := fun equal =>
            replaced (replaces.mpr ((finds.mp found).trans (same.mp equal).symm))
          simp [found, different]
        · simp [found]

/-- Keys keep their places, and a new key is put at the end. -/
theorem map_fst_insert {Key : Type} [BEq Key] (key : Key) (entry : Entry)
    (entries : List (Key × Entry)) :
    (insert key entry entries).map Prod.fst =
      if entries.any (fun other => other.1 == key) then entries.map Prod.fst
      else entries.map Prod.fst ++ [key] := by
  induction entries with
  | nil => rfl
  | cons first rest ih =>
      rw [insert]
      cases same : first.1 == key with
      | true => simp [same]
      | false =>
          simp only [Bool.false_eq_true, if_false, List.map_cons, ih, List.any_cons, same,
            Bool.false_or]
          split <;> rfl

theorem find_map_snd {Key Entry Other : Type} [BEq Key] (change : Entry → Other) (key : Key)
    (entries : List (Key × Entry)) :
    find key (entries.map (fun entry => (entry.1, change entry.2))) =
      (find key entries).map change := by
  induction entries with
  | nil => rfl
  | cons first rest ih =>
      rw [List.map_cons, find, find, ih]
      split <;> rfl

/-- What is listed in a register is found in it. -/
theorem find_of_mem (distinct : IsRegister entries) (serves : key.isKey = true)
    (member : (key, entry) ∈ entries) : find key entries = some entry := by
  induction entries with
  | nil => cases member
  | cons first rest ih =>
      obtain ⟨onFirst, onRest⟩ := List.pairwise_cons.mp distinct
      rcases List.mem_cons.mp member with rfl | inRest
      · rw [find, (beq_iff_key? serves serves).mpr rfl]
        rfl
      · rw [find, onFirst _ inRest]
        exact ih onRest inRest

end Register

namespace Estimate

/-- Whether a field is in what is allowed for it, as far as this is known. -/
def meets (estimate : Estimate) (field : String × Datum) : Bool :=
  match estimate.fieldIsIn field.1 field.2 with
  | .ok inside => inside
  | .error _ => false

theorem fieldsAreIn_of_decided {estimate : Estimate} {fields : List (String × Datum)}
    (decided : ∀ field ∈ fields, ∃ inside, estimate.fieldIsIn field.1 field.2 = .ok inside) :
    estimate.fieldsAreIn fields = .ok (fields.all estimate.meets) := by
  induction fields with
  | nil => rfl
  | cons first rest ih =>
      obtain ⟨⟨inside, onFirst⟩, onRest⟩ := List.forall_mem_cons.mp decided
      have met : estimate.meets first = inside := by rw [meets, onFirst]
      obtain ⟨name, allowed⟩ := first
      rw [fieldsAreIn, onFirst, List.all_cons, met]
      cases inside with
      | false => rfl
      | true => exact ih onRest

end Estimate

namespace Estimator

theorem isKey_of_mapM_complete {estimator : Estimator} {accesses : List AccessRecord}
    {made : List Estimate} {start last : Progress}
    (completed : (accesses.mapM estimator.complete).outcome start = (.ok made, last)) :
    ∀ estimate ∈ made, estimate.key.isKey = true := by
  induction accesses generalizing start made with
  | nil =>
      cases completed
      exact List.forall_mem_nil _
  | cons first rest ih =>
      rw [List.mapM_cons] at completed
      obtain ⟨estimate, middle, onFirst, completed⟩ := outcome_bind_eq_ok.mp completed
      obtain ⟨others, _, onRest, same⟩ := outcome_bind_eq_ok.mp completed
      cases same
      obtain ⟨made, after, _, checked⟩ := outcome_bind_eq_ok.mp onFirst
      by_cases serves : made.key.isKey = true
      · rw [if_pos serves] at checked
        obtain ⟨_, delivered, _, same⟩ := outcome_bind_eq_ok.mp checked
        cases same
        exact List.forall_mem_cons.mpr ⟨serves, ih onRest⟩
      · rw [if_neg serves] at checked
        cases checked

end Estimator

namespace EstimateMap

variable {map : EstimateMap} {estimates : List Estimate} {estimate : Estimate}
  {allocation : Datum} {groups : List (Datum × List Estimate)} {field : String × Datum}
  {fields : List (String × Datum)}

/-- Every allocation serves as a key. -/
def AreKeyed (estimates : List Estimate) : Prop :=
  ∀ estimate ∈ estimates, estimate.key.allocation.isKey = true

/-- The estimates of an allocation. -/
def ofAllocation (allocation : Datum) (estimates : List Estimate) : List Estimate :=
  estimates.filter (fun estimate => estimate.key.allocation == allocation)

def groupsOf (estimates : List Estimate) : List (Datum × List Estimate) :=
  estimates.foldl addToGroups []

theorem groupsOf_concat (estimates : List Estimate) (estimate : Estimate) :
    groupsOf (estimates ++ [estimate]) = addToGroups (groupsOf estimates) estimate := by
  rw [groupsOf, List.foldl_append]
  rfl

/-- Groups of different allocations that serve as keys. -/
structure AreDistinct (groups : List (Datum × List Estimate)) : Prop where
  keyed : ∀ name ∈ groups.map Prod.fst, name.isKey = true
  apart : (groups.map Prod.fst).Pairwise (fun first second => (first == second) = false)

theorem AreDistinct.isRegister (distinct : AreDistinct groups) : Register.IsRegister groups :=
  List.pairwise_map.mp distinct.apart

theorem AreDistinct.addToGroups (distinct : AreDistinct groups)
    (serves : estimate.key.allocation.isKey = true) :
    AreDistinct (addToGroups groups estimate) := by
  have names := Register.map_fst_insert estimate.key.allocation
    ((Register.find estimate.key.allocation groups).getD [] ++ [estimate]) groups
  unfold EstimateMap.addToGroups
  by_cases known : groups.any (fun group => group.1 == estimate.key.allocation) = true
  · rw [if_pos known] at names
    constructor
    · rw [names]
      exact distinct.keyed
    · rw [names]
      exact distinct.apart
  · rw [if_neg known] at names
    constructor
    · rw [names, List.forall_mem_append, List.forall_mem_singleton]
      exact ⟨distinct.keyed, serves⟩
    · rw [names]
      refine List.pairwise_append.mpr ⟨distinct.apart, List.pairwise_singleton _ _, ?_⟩
      intro name old other new
      obtain ⟨group, member, rfl⟩ := List.mem_map.mp old
      rw [List.mem_singleton.mp new]
      exact Bool.eq_false_iff.mpr (fun same => known (List.any_eq_true.mpr ⟨group, member, same⟩))

theorem areDistinct_groupsOf (keyed : AreKeyed estimates) : AreDistinct (groupsOf estimates) := by
  have added (groups : List (Datum × List Estimate)) (distinct : AreDistinct groups) :
      AreDistinct (estimates.foldl EstimateMap.addToGroups groups) := by
    induction estimates generalizing groups with
    | nil => exact distinct
    | cons first rest ih =>
        obtain ⟨onFirst, onRest⟩ := List.forall_mem_cons.mp keyed
        exact ih onRest _ (distinct.addToGroups onFirst)
  exact added [] ⟨List.forall_mem_nil _, .nil⟩

/-- Equal allocations have the same estimates. -/
theorem ofAllocation_congr {other : Datum} (keyed : AreKeyed estimates)
    (serves : allocation.isKey = true) (otherServes : other.isKey = true)
    (same : (allocation == other) = true) :
    ofAllocation allocation estimates = ofAllocation other estimates := by
  refine List.filter_congr (fun estimate member => ?_)
  have equal := (Register.beq_iff_key? serves otherServes).mp same
  rw [Bool.eq_iff_iff, Register.beq_iff_key? (keyed estimate member) serves,
    Register.beq_iff_key? (keyed estimate member) otherServes, equal]

/-- The group of an allocation holds its estimates, and there is none without any. -/
theorem find_groupsOf (keyed : AreKeyed estimates) (serves : allocation.isKey = true) :
    Register.find allocation (groupsOf estimates) =
      if ofAllocation allocation estimates = [] then none
      else some (ofAllocation allocation estimates) := by
  induction estimates using List.reverseRecOn generalizing allocation with
  | nil => rfl
  | append_singleton earlier last ih =>
      obtain ⟨onEarlier, onLast⟩ := List.forall_mem_append.mp keyed
      have lastServes := onLast last (List.mem_singleton_self last)
      have named : ∀ group ∈ groupsOf earlier, group.1.isKey = true :=
        fun group member => (areDistinct_groupsOf onEarlier).keyed _ (List.mem_map_of_mem member)
      have before : (Register.find last.key.allocation (groupsOf earlier)).getD [] =
          ofAllocation last.key.allocation earlier := by
        rw [ih onEarlier lastServes]
        split
        · next none => exact none.symm
        · rfl
      rw [groupsOf_concat, addToGroups, before,
        Register.find_insert_of_isKey lastServes serves named]
      by_cases same : (last.key.allocation == allocation) = true
      · have joined : ofAllocation allocation (earlier ++ [last]) =
            ofAllocation allocation earlier ++ [last] := by simp [ofAllocation, same]
        have present : ofAllocation allocation earlier ++ [last] ≠ [] := by simp
        rw [if_pos same, joined, if_neg present,
          ofAllocation_congr onEarlier lastServes serves same]
      · have apart : ofAllocation allocation (earlier ++ [last]) =
            ofAllocation allocation earlier := by simp [ofAllocation, same]
        rw [if_neg same, apart]
        exact ih onEarlier serves

/-- Every group is that of its allocation and not empty. -/
theorem eq_ofAllocation_of_mem (keyed : AreKeyed estimates) {group : Datum × List Estimate}
    (member : group ∈ groupsOf estimates) :
    group.1.isKey = true ∧ group.2 = ofAllocation group.1 estimates ∧ group.2 ≠ [] := by
  have distinct := areDistinct_groupsOf keyed
  have serves := distinct.keyed _ (List.mem_map_of_mem member)
  have found := Register.find_of_mem distinct.isRegister serves member
  rw [find_groupsOf keyed serves] at found
  split at found
  · cases found
  · next some =>
      have same := Option.some.inj found
      exact ⟨serves, same.symm, fun none => some (same.trans none)⟩

/-- Adding an estimate to the groups adds nothing else to them. -/
theorem flatMap_addToGroups_perm (groups : List (Datum × List Estimate)) (estimate : Estimate) :
    ((addToGroups groups estimate).flatMap Prod.snd).Perm
      (groups.flatMap Prod.snd ++ [estimate]) := by
  unfold addToGroups
  dsimp only
  induction groups with
  | nil => exact .refl _
  | cons first rest ih =>
      obtain ⟨name, members⟩ := first
      rw [Register.find, Register.insert]
      by_cases same : (name == estimate.key.allocation) = true
      · rw [if_pos same, if_pos same]
        simp only [Option.getD_some, List.flatMap_cons, List.append_assoc]
        exact (List.perm_append_comm).append_left members
      · rw [if_neg same, if_neg same]
        simp only [List.flatMap_cons, List.append_assoc]
        exact ih.append_left members

/-- The groups together hold every estimate as often as there is. -/
theorem flatMap_groupsOf_perm (estimates : List Estimate) :
    ((groupsOf estimates).flatMap Prod.snd).Perm estimates := by
  induction estimates using List.reverseRecOn with
  | nil => exact .refl _
  | append_singleton earlier last ih =>
      rw [groupsOf_concat]
      exact (flatMap_addToGroups_perm _ last).trans (ih.append_right [last])

/-- Estimates are only kept under what serves as a key. -/
theorem areKeyed_of_estimateInvocation {catalogue : Catalogue} {settings : Settings}
    {resolver : Resolver} {start last : Progress}
    (returned : (estimateInvocation catalogue settings resolver).outcome start =
      (.ok map, last)) : AreKeyed map.estimates := by
  rcases found : catalogue.find? resolver.invocation.kernel with cause | _ | kernel
  · rw [estimateInvocation, found] at returned
    cases returned
  · rw [estimateInvocation, found] at returned
    cases returned
    exact List.forall_mem_nil _
  · rw [outcome_estimateInvocation found] at returned
    obtain ⟨⟨counts, estimator⟩, surveyed, onSurvey, rest⟩ := outcome_bind_eq_ok.mp returned
    obtain ⟨estimates, _, estimated, same⟩ := outcome_bind_eq_ok.mp rest
    cases same
    obtain ⟨made, completed, rfl⟩ := Estimator.estimateAll_eq_ok.mp estimated
    intro estimate member
    have among := (mem_of_mem_foldl member).resolve_right List.not_mem_nil
    have serves := Estimator.isKey_of_mapM_complete completed estimate among
    exact (Bool.and_eq_true _ _ ▸ serves).1

/-- The maps that estimations return, and what is selected from these. -/
inductive IsObtained : EstimateMap → Prop
  | returned {catalogue : Catalogue} {settings : Settings} {resolver : Resolver}
      {start last : Progress} {map : EstimateMap} :
      (estimateInvocation catalogue settings resolver).outcome start = (.ok map, last) →
      IsObtained map
  | filtered {map selected : EstimateMap} {fields : List (String × Datum)} :
      IsObtained map → map.filterByNamed fields = .ok selected → IsObtained selected
  | chosen {map : EstimateMap} : IsObtained map → (keep : Estimate → Bool) →
      IsObtained (map.filter keep)
  | grouped {map : EstimateMap} {group : Datum × EstimateMap} :
      IsObtained map → group ∈ map.groupByAllocation → IsObtained group.2

/-- What is kept was there. -/
theorem mem_of_mem_keptBy {kept : List Estimate} (returned : keptBy fields estimates = .ok kept)
    (member : estimate ∈ kept) : estimate ∈ estimates := by
  induction estimates generalizing kept with
  | nil =>
      cases returned
      exact member
  | cons first rest ih =>
      obtain ⟨isKept, _, returned⟩ := Postfix.bind_eq_ok.mp returned
      obtain ⟨others, onRest, returned⟩ := Postfix.bind_eq_ok.mp returned
      cases returned
      cases isKept with
      | false => exact List.mem_cons_of_mem first (ih onRest member)
      | true =>
          rcases List.mem_cons.mp member with rfl | later
          · exact List.mem_cons_self ..
          · exact List.mem_cons_of_mem first (ih onRest later)

theorem filterByNamed_eq_ok {selected : EstimateMap} :
    map.filterByNamed fields = .ok selected ↔
      (∀ field ∈ fields, field.1 ≠ "self") ∧
        ∃ kept, keptBy fields map.estimates = .ok kept ∧
          { map with estimates := kept } = selected := by
  unfold filterByNamed
  by_cases misnamed : fields.any (fun field => field.1 == "self") = true
  · obtain ⟨field, member, isSelf⟩ := List.any_eq_true.mp misnamed
    rw [if_pos misnamed]
    refine ⟨nofun, ?_⟩
    rintro ⟨named, _⟩
    exact absurd (eq_of_beq isSelf) (named field member)
  · have named : ∀ field ∈ fields, field.1 ≠ "self" := fun field member isSelf =>
      misnamed (List.any_eq_true.mpr ⟨field, member, beq_iff_eq.mpr isSelf⟩)
    rw [if_neg misnamed]
    constructor
    · intro returned
      obtain ⟨kept, onKept, same⟩ := Postfix.bind_eq_ok.mp returned
      exact ⟨named, kept, onKept, Except.ok.inj same⟩
    · rintro ⟨_, kept, onKept, rfl⟩
      exact Postfix.bind_eq_ok.mpr ⟨kept, onKept, rfl⟩

theorem IsObtained.areKeyed (obtained : map.IsObtained) : AreKeyed map.estimates := by
  induction obtained with
  | returned returned => exact areKeyed_of_estimateInvocation returned
  | filtered _ returned ih =>
      obtain ⟨_, kept, onKept, rfl⟩ := filterByNamed_eq_ok.mp returned
      exact fun estimate member => ih estimate (mem_of_mem_keptBy onKept member)
  | chosen _ keep ih => exact fun estimate member => ih estimate (List.mem_of_mem_filter member)
  | grouped _ member ih =>
      obtain ⟨group, inside, rfl⟩ := List.mem_map.mp member
      obtain ⟨_, same, _⟩ := eq_ofAllocation_of_mem ih inside
      intro estimate among
      rw [same] at among
      exact ih estimate (List.mem_of_mem_filter among)

/-- Whether a field is in what is allowed for it is known of every estimate. -/
structure Decides (map : EstimateMap) (field : String × Datum) : Prop where
  named : field.1 ≠ "self"
  decided : ∀ estimate ∈ map.estimates, ∃ inside, estimate.fieldIsIn field.1 field.2 = .ok inside

theorem decides_list (map : EstimateMap) {name : String} (named : name ≠ "self")
    (allowed : List Datum) : map.Decides (name, .list allowed) :=
  ⟨named, fun _ _ => ⟨_, rfl⟩⟩

theorem Decides.filter (decides : map.Decides field) (keep : Estimate → Bool) :
    (map.filter keep).Decides field :=
  ⟨decides.named, fun estimate member => decides.decided estimate (List.mem_of_mem_filter member)⟩

theorem keptBy_of_decided
    (decided : ∀ estimate ∈ estimates, ∀ field ∈ fields,
      ∃ inside, estimate.fieldIsIn field.1 field.2 = .ok inside) :
    keptBy fields estimates =
      .ok (estimates.filter (fun estimate => fields.all estimate.meets)) := by
  induction estimates with
  | nil => rfl
  | cons first rest ih =>
      obtain ⟨onFirst, onRest⟩ := List.forall_mem_cons.mp decided
      rw [keptBy, Estimate.fieldsAreIn_of_decided onFirst, ih onRest, List.filter_cons]
      rfl

/-- Filters keep what meets all of their fields. -/
theorem filterByNamed_of_decides (decides : ∀ field ∈ fields, map.Decides field) :
    map.filterByNamed fields =
      .ok (map.filter (fun estimate => fields.all estimate.meets)) := by
  have named : fields.any (fun field => field.1 == "self") = false := by
    rw [List.any_eq_false]
    intro field member
    simpa using (decides field member).named
  have kept : keptBy fields map.estimates = .ok _ := keptBy_of_decided
    (fun estimate among field member => (decides field member).decided estimate among)
  rw [filterByNamed, named, kept]
  rfl

/-- A filter by one field looks at this field of every estimate. -/
theorem decided_of_keptBy {kept : List Estimate} (returned : keptBy [field] estimates = .ok kept) :
    ∀ estimate ∈ estimates, ∃ inside, estimate.fieldIsIn field.1 field.2 = .ok inside := by
  induction estimates generalizing kept with
  | nil => exact List.forall_mem_nil _
  | cons first rest ih =>
      obtain ⟨isKept, onFirst, returned⟩ := Postfix.bind_eq_ok.mp returned
      obtain ⟨others, onRest, _⟩ := Postfix.bind_eq_ok.mp returned
      obtain ⟨inside, known, _⟩ := Postfix.bind_eq_ok.mp onFirst
      exact List.forall_mem_cons.mpr ⟨⟨inside, known⟩, ih onRest⟩

theorem decides_of_filterByNamed {selected : EstimateMap}
    (returned : map.filterByNamed [field] = .ok selected) : map.Decides field := by
  obtain ⟨named, kept, onKept, _⟩ := filterByNamed_eq_ok.mp returned
  exact ⟨named field (List.mem_singleton_self field), decided_of_keptBy onKept⟩

/-- One after the other, filters keep what meets the fields of all of them. -/
theorem foldlM_filterByNamed (decides : ∀ field ∈ fields, map.Decides field) :
    fields.foldlM (fun selected field => filterByNamed selected [field]) map =
      .ok (map.filter (fun estimate => fields.all estimate.meets)) := by
  induction fields generalizing map with
  | nil =>
      have all : map.estimates.filter (fun _ => true) = map.estimates := by simp
      change Except.ok map = .ok { map with estimates := map.estimates.filter (fun _ => true) }
      rw [all]
  | cons first rest ih =>
      obtain ⟨onFirst, onRest⟩ := List.forall_mem_cons.mp decides
      have kept := filterByNamed_of_decides (List.forall_mem_singleton.mpr onFirst)
      have onward := ih (fun field member =>
        (onRest field member).filter (fun estimate => [first].all estimate.meets))
      have both : (map.filter (fun estimate => [first].all estimate.meets)).filter
            (fun estimate => rest.all estimate.meets) =
          map.filter (fun estimate => (first :: rest).all estimate.meets) := by
        simp [filter, List.filter_filter, Bool.and_comm]
      rw [List.foldlM_cons, kept]
      exact onward.trans (congrArg Except.ok both)

/-- Several fields at once keep what they keep one after the other, in whichever order. A
field with a list of allowed values can always be looked at. -/
structure FiltersInAnyOrder (map : EstimateMap) : Prop where
  lists : ∀ name, name ≠ "self" → ∀ allowed : List Datum,
    ∃ selected, map.filterByNamed [(name, .list allowed)] = .ok selected
  inAnyOrder : ∀ fields : List (String × Datum),
    (∀ field ∈ fields, ∃ selected, map.filterByNamed [field] = .ok selected) →
    ∃ selected, map.filterByNamed fields = .ok selected ∧
      ∀ order : List (String × Datum), order.Perm fields →
        order.foldlM (fun selected field => filterByNamed selected [field]) map = .ok selected

theorem filtersInAnyOrder (map : EstimateMap) : map.FiltersInAnyOrder := by
  refine ⟨fun name named allowed => ?_, fun fields returned => ?_⟩
  · exact ⟨_, filterByNamed_of_decides
      (List.forall_mem_singleton.mpr (map.decides_list named allowed))⟩
  have decides : ∀ field ∈ fields, map.Decides field := by
    intro field member
    obtain ⟨selected, returned⟩ := returned field member
    exact decides_of_filterByNamed returned
  refine ⟨_, filterByNamed_of_decides decides, fun order among => ?_⟩
  have same : (fun estimate : Estimate => order.all estimate.meets) =
      fun estimate => fields.all estimate.meets := funext (fun _ => among.all_eq)
  rw [foldlM_filterByNamed (fun field member => decides field (among.mem_iff.mp member)), same]

/-- All working sets that are there are integers. -/
def HaveIntegers (estimates : List Estimate) : Prop :=
  ∀ estimate ∈ estimates, ∀ value, estimate.workingSet = some value →
    ∃ number, value = .int number

/-- The sum of the working sets that are integers. -/
def sumOf (estimates : List Estimate) : Int :=
  (estimates.filterMap (fun estimate => estimate.workingSet.bind Value.integer?)).sum

theorem totalWorkingSet_of_haveIntegers (known : HaveIntegers map.estimates) (emitter : Emitter) :
    map.totalWorkingSet emitter = pure (.int (wrapWide (sumOf map.estimates))) := by
  have added (estimates : List Estimate) (known : HaveIntegers estimates) (start : Int) :
      (estimates.filterMap Estimate.workingSet).foldlM (emitter.combine .add)
          (.int (wrapWide start)) =
        pure (.int (wrapWide (start + sumOf estimates))) := by
    induction estimates generalizing start with
    | nil =>
        have nothing : start + sumOf [] = start := Int.add_zero start
        rw [nothing]
        rfl
    | cons first rest ih =>
        obtain ⟨onFirst, onRest⟩ := List.forall_mem_cons.mp known
        cases found : first.workingSet with
        | none => simpa [sumOf, found] using ih onRest start
        | some value =>
            obtain ⟨number, rfl⟩ := onFirst value found
            have next : wrapWide (wrapWide start + number) = wrapWide (start + number) :=
              wrapWide_congr ((wrapWide_modEq start).add_right number)
            have sum : sumOf (first :: rest) = number + sumOf rest := by
              simp [sumOf, found, Value.integer?]
            rw [List.filterMap_cons_some found, List.foldlM_cons,
              emitter.combine_of_fold (WordOp.fold_add _ _), next, pure_bind, ih onRest, sum,
              Int.add_assoc]
  have all := added map.estimates known 0
  rwa [Int.zero_add] at all

/-- If all working sets are integers, the totals of the groups add up to the total of the map,
up to multiples of 2 ^ 64. -/
def TotalsAddUp (map : EstimateMap) : Prop :=
  HaveIntegers map.estimates → ∀ emitter, ∃ totals : List Int,
    map.groupByAllocation.map (fun group => group.2.totalWorkingSet emitter) =
        totals.map (fun total => pure (.int total)) ∧
      map.totalWorkingSet emitter = pure (.int (wrapWide totals.sum))

theorem totalsAddUp (map : EstimateMap) : map.TotalsAddUp := by
  intro known emitter
  have parts := flatMap_groupsOf_perm map.estimates
  refine ⟨(groupsOf map.estimates).map (fun group => wrapWide (sumOf group.2)), ?_, ?_⟩
  · rw [groupByAllocation, List.map_map, List.map_map]
    refine List.map_congr_left (fun group member => ?_)
    refine totalWorkingSet_of_haveIntegers (fun estimate among => known estimate ?_) emitter
    exact parts.mem_iff.mp (List.mem_flatMap.mpr ⟨group, member, among⟩)
  · have wrapped (groups : List (Datum × List Estimate)) :
        (groups.map (fun group => wrapWide (sumOf group.2))).sum ≡
          sumOf (groups.flatMap Prod.snd) [ZMOD 2 ^ 64] := by
      induction groups with
      | nil => rfl
      | cons first rest ih =>
          have joined : sumOf ((first :: rest).flatMap Prod.snd) =
              sumOf first.2 + sumOf (rest.flatMap Prod.snd) := by
            simp [sumOf, List.filterMap_append]
          rw [List.map_cons, List.sum_cons, joined]
          exact (wrapWide_modEq _).add ih
    have whole : sumOf ((groupsOf map.estimates).flatMap Prod.snd) = sumOf map.estimates :=
      (parts.filterMap _).sum_eq
    have same := wrapWide_congr (wrapped (groupsOf map.estimates))
    rw [totalWorkingSet_of_haveIntegers known, same, whole]

/-- The groups of a map divide it among its allocations. -/
structure IsPartition (map : EstimateMap) (groups : List (Datum × EstimateMap)) : Prop where
  nonempty : ∀ group ∈ groups, group.2.estimates ≠ []
  disjoint : groups.Pairwise (fun first second =>
    ∀ estimate ∈ first.2.estimates, ∀ other ∈ second.2.estimates,
      (estimate.key == other.key) = false)
  covers : (groups.flatMap (fun group => group.2.estimates)).Perm map.estimates
  inOrder : ∀ group ∈ groups, group.2.estimates.Sublist map.estimates
  loops : ∀ group ∈ groups, group.2.loopIterations = map.loopIterations
  selected : ∀ group ∈ groups,
    map.filterByNamed [("allocation", .list [group.1])] = .ok group.2
  found : ∀ allocation, allocation.isKey = true →
    map.filterByNamed [("allocation", .list [allocation])] =
      .ok ((Register.find allocation groups).getD { map with estimates := [] })

theorem filterByNamed_allocation (map : EstimateMap) (allocation : Datum) :
    map.filterByNamed [("allocation", .list [allocation])] =
      .ok { map with estimates := ofAllocation allocation map.estimates } := by
  have named : "allocation" ≠ "self" := by decide
  have decides := map.decides_list named [allocation]
  rw [filterByNamed_of_decides (List.forall_mem_singleton.mpr decides), filter, ofAllocation]
  simp [Estimate.meets, Estimate.fieldIsIn, Estimate.fieldIs]

/-- Estimates of different allocations have different keys. -/
theorem disjoint_ofAllocation {other : Datum} (keyed : AreKeyed estimates)
    (serves : allocation.isKey = true) (otherServes : other.isKey = true)
    (different : (allocation == other) = false) :
    ∀ estimate ∈ ofAllocation allocation estimates, ∀ another ∈ ofAllocation other estimates,
      (estimate.key == another.key) = false := by
  intro estimate member another otherMember
  obtain ⟨among, own⟩ := List.mem_filter.mp member
  obtain ⟨otherAmong, otherOwn⟩ := List.mem_filter.mp otherMember
  have keys := (Register.beq_iff_key? (keyed estimate among) serves).mp own
  have otherKeys := (Register.beq_iff_key? (keyed another otherAmong) otherServes).mp otherOwn
  refine AccessKey.beq_of_allocation_ne (Bool.eq_false_iff.mpr (fun same => ?_))
  have equal := (Register.beq_iff_key? (keyed estimate among) (keyed another otherAmong)).mp same
  rw [keys, otherKeys] at equal
  exact Bool.eq_false_iff.mp different ((Register.beq_iff_key? serves otherServes).mpr equal)

theorem isPartition_groupByAllocation (keyed : AreKeyed map.estimates) :
    map.IsPartition map.groupByAllocation := by
  have own (group : Datum × List Estimate) (member : group ∈ groupsOf map.estimates) :=
    eq_ofAllocation_of_mem keyed member
  constructor
  case nonempty =>
    refine List.forall_mem_map.mpr (fun group member => ?_)
    exact (own group member).2.2
  case disjoint =>
    refine List.pairwise_map.mpr ((areDistinct_groupsOf keyed).isRegister.imp_of_mem ?_)
    intro first second member otherMember different
    obtain ⟨serves, same, _⟩ := own first member
    obtain ⟨otherServes, otherSame, _⟩ := own second otherMember
    dsimp only
    rw [same, otherSame]
    exact disjoint_ofAllocation keyed serves otherServes different
  case covers =>
    have flat : map.groupByAllocation.flatMap (fun group => group.2.estimates) =
        (groupsOf map.estimates).flatMap Prod.snd := List.flatMap_map ..
    rw [flat]
    exact flatMap_groupsOf_perm map.estimates
  case inOrder =>
    refine List.forall_mem_map.mpr (fun group member => ?_)
    dsimp only
    rw [(own group member).2.1]
    exact List.filter_sublist
  case loops => exact List.forall_mem_map.mpr (fun _ _ => rfl)
  case selected =>
    refine List.forall_mem_map.mpr (fun group member => ?_)
    dsimp only
    rw [filterByNamed_allocation, ← (own group member).2.1]
  case found =>
    intro allocation serves
    have looked := Register.find_map_snd (fun members => { map with estimates := members })
      allocation (groupsOf map.estimates)
    rw [filterByNamed_allocation, groupByAllocation, ← groupsOf, looked,
      find_groupsOf keyed serves]
    split
    · next none =>
        rw [none]
        rfl
    · rfl

end EstimateMap

/-- Of every map that estimations, filters and groups lead to, the groups by allocation are a
partition, the order of filters does not matter, and the totals of the groups add up. -/
theorem EstimateMap.isPartition_of_isObtained {map : EstimateMap} (obtained : map.IsObtained) :
    map.IsPartition map.groupByAllocation ∧ map.FiltersInAnyOrder ∧ map.TotalsAddUp :=
  ⟨isPartition_groupByAllocation obtained.areKeyed, map.filtersInAnyOrder, map.totalsAddUp⟩

namespace LoopNest

/-- An address that moves by 2 ^ 58 from thread to thread, in the allocation of an argument. -/
def farApart (id formal : Int) : AccessRecord :=
  { accessAt id 0 threadIndex with
    allocationArg := formal
    tree := some (.node (.text "GEP") (.structural .gep)
      [.node (.text "ARG0") (.terminal (.argument 0)) [],
        .node (.text "MUL") (.operation .mul none)
          [.node (.text "TIDX") (.terminal (.thread .x)) [],
            .node (.text "288230376151711744") (.terminal (.constant (2 ^ 58))) []]]) }

/-- The first and the last of three accesses share an allocation. -/
def sharing : KernelRecord where
  name := .text "kernel"
  accesses := [(1, farApart 1 0), (2, farApart 2 1), (3, farApart 3 0)]

/-- The working sets of the shared allocation exceed 2 ^ 63 together, and those of both
allocations exceed 2 ^ 64. -/
theorem isPartition_sharing :
    ∃ map last, (estimateInvocation [(.text "kernel", sharing)] {}
        (.sample (.constant 128))).outcome { sink := .absent } = (.ok map, last) ∧
      map.estimates.map (fun estimate => estimate.workingSet.bind Value.integer?) =
        [some (31 * 2 ^ 58), some (31 * 2 ^ 58), some (31 * 2 ^ 58)] ∧
      map.groupByAllocation.map (fun group =>
        group.2.estimates.map (fun estimate => estimate.key.access)) = [[1, 3], [2]] ∧
      map.IsPartition map.groupByAllocation ∧ map.FiltersInAnyOrder ∧ map.TotalsAddUp := by
  have results : ((estimateInvocation [(.text "kernel", sharing)] {}
      (.sample (.constant 128))).outcome { sink := .absent }).1.toOption.map (fun map =>
        (map.estimates.map (fun estimate => estimate.workingSet.bind Value.integer?),
          map.groupByAllocation.map (fun group =>
            group.2.estimates.map (fun estimate => estimate.key.access)))) =
      some ([some (31 * 2 ^ 58), some (31 * 2 ^ 58), some (31 * 2 ^ 58)], [[1, 3], [2]]) := by
    decide +kernel
  rcases returned : (estimateInvocation [(.text "kernel", sharing)] {}
      (.sample (.constant 128))).outcome { sink := .absent } with ⟨fault | map, last⟩
  · rw [returned] at results
    cases results
  · rw [returned] at results
    obtain ⟨sizes, groups⟩ := Prod.mk.inj (Option.some.inj results)
    exact ⟨map, last, rfl, sizes, groups,
      EstimateMap.isPartition_of_isObtained (.returned returned)⟩

end LoopNest

end KernelFootprint
