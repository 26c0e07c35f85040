import Mathlib.Data.List.Nodup
import Quorum.WellFormed

/-!
# Validation accepts exactly the well-formed specifications

Every check finds nothing if and only if the rule behind it holds. Problems are listed approver by
approver, each judged against those in front of it, so "no repetition so far" has to be read as
"no repetition at all" once, for approvers and for members alike (`nodup_map_iff_take`).
-/
namespace Quorum.Spec

/-- A check that goes over a list with positions finds nothing exactly if it finds nothing at each
position. Every loop of validation has this form. -/
theorem zipIdx_flatMap_eq_nil_iff {f : α × Nat → List β} {as : List α} :
    as.zipIdx.flatMap f = [] ↔ ∀ (i : Nat) a, as[i]? = some a → f (a, i) = [] := by
  rw [List.flatMap_eq_nil_iff]
  constructor
  · intro h i a ha
    exact h (a, i) (List.mk_mem_zipIdx_iff_getElem?.mpr ha)
  · rintro h ⟨a, i⟩ ha
    exact h i a (List.mk_mem_zipIdx_iff_getElem?.mp ha)

/-- No key comes twice exactly if no item has the key of one in front of it, which is how validation
looks for repetitions. -/
theorem nodup_map_iff_take {key : α → κ} {as : List α} :
    (as.map key).Nodup ↔ ∀ (i : Nat) a, as[i]? = some a → ∀ b ∈ as.take i, key b ≠ key a := by
  rw [List.Nodup, List.pairwise_map, List.pairwise_iff_getElem]
  constructor
  · intro h i a ha b hb
    obtain ⟨hi, rfl⟩ := List.getElem?_eq_some_iff.mp ha
    obtain ⟨j, hj, rfl⟩ := List.mem_take_iff_getElem.mp hb
    exact h j i (by omega) hi (by omega)
  · intro h i j hi hj hij
    have hmem : as[i] ∈ as.take j := List.mem_take_iff_getElem.mpr ⟨i, by omega, rfl⟩
    exact h j as[j] (List.getElem?_eq_getElem hj) as[i] hmem

@[simp] theorem problemIf_eq_nil_iff {found : Option Defect} {place : Place} :
    problemIf found place = [] ↔ found = none := by
  cases found <;> simp [problemIf]

/-- The checks of names and the predicates on them agree; blank names count as no names on both
sides. -/
theorem userNameDefect?_eq_none_iff {name : String} :
    userNameDefect? name = none ↔ UserName name := by
  rw [userNameDefect?, UserName, ← List.isPrefixOf_iff_prefix]
  cases Text.blank name <;> cases groupMark.toList.isPrefixOf name.toList <;> simp

theorem groupNameDefect?_eq_none_iff {name : String} :
    groupNameDefect? name = none ↔ GroupName name := by
  have hall : name.toList.any Text.isBlank = false ↔
      ∀ c ∈ name.toList, Text.isBlank c = false := by simp
  have hcolon : name.toList.contains ':' = false ↔ ':' ∉ name.toList := by simp
  rw [groupNameDefect?, GroupName, ← hall, ← hcolon]
  cases Text.blank name <;> cases name.toList.any Text.isBlank <;>
    cases name.toList.contains ':' <;> simp

theorem memberNameDefect?_eq_none_iff {name : String} :
    memberNameDefect? name = none ↔ UserName name := by
  rw [memberNameDefect?, ← userNameDefect?_eq_none_iff, userNameDefect?]
  cases Text.blank name <;> simp

@[simp] theorem voteDefect?_eq_none_iff {v : Vote} : voteDefect? v = none ↔ v.isKnown = true := by
  simp [voteDefect?]

/-- A kind other than the two is a problem by itself, so an approver without such problems is a user
or a group with a name of the right form. -/
theorem kindProblems_eq_nil_iff {i : Nat} {a : Approver} :
    kindProblems i a = [] ↔
      (a.kind = .user ∧ UserName a.name) ∨ (a.kind = .group ∧ GroupName a.name) := by
  rw [kindProblems]
  cases a.kind <;> simp [userNameDefect?_eq_none_iff, groupNameDefect?_eq_none_iff]

/-- The three checks of a member, each about a field of its own, or in the case of repetitions about
the members in front. -/
theorem memberProblems_eq_nil_iff {i j : Nat} {before : List Member} {m : Member} :
    memberProblems i j before m = [] ↔
      UserName m.name ∧ (∀ b ∈ before, b.name ≠ m.name) ∧ m.vote.isKnown = true := by
  simp [memberProblems, memberNameDefect?_eq_none_iff, List.findIdx?_eq_none_iff]

theorem membersProblems_eq_nil_iff {i : Nat} {members : List Member} :
    membersProblems i members = [] ↔
      (∀ m ∈ members, UserName m.name) ∧ (members.map (·.name)).Nodup ∧
        ∀ m ∈ members, m.vote.isKnown = true := by
  rw [membersProblems, zipIdx_flatMap_eq_nil_iff, nodup_map_iff_take]
  simp only [memberProblems_eq_nil_iff]
  constructor
  · intro h
    refine ⟨?_, fun j m hm => (h j m hm).2.1, ?_⟩
    · intro m hm
      obtain ⟨j, hj⟩ := List.mem_iff_getElem?.mp hm
      exact (h j m hj).1
    · intro m hm
      obtain ⟨j, hj⟩ := List.mem_iff_getElem?.mp hm
      exact (h j m hj).2.2
  · rintro ⟨hname, hdistinct, hknown⟩ j m hm
    have hmem : m ∈ members := List.mem_of_getElem? hm
    exact ⟨hname m hmem, hdistinct j m hm, hknown m hmem⟩

/-- An approver by itself has no problems exactly if it is well-formed. For anything but a group the
members are not looked into, but then there must be none. -/
theorem approverProblems_eq_nil_iff {i : Nat} {a : Approver} :
    approverProblems i a = [] ↔ a.WellFormed := by
  rw [approverProblems, List.append_eq_nil_iff, List.append_eq_nil_iff, kindProblems_eq_nil_iff,
    problemIf_eq_nil_iff, voteDefect?_eq_none_iff]
  constructor
  · intro h
    obtain ⟨⟨hnamed, hknown⟩, hmembers⟩ := h
    by_cases hnil : a.members = []
    · exact ⟨hnamed, hknown, fun h => absurd hnil h, by simp [hnil], by simp [hnil], by simp [hnil]⟩
    · by_cases hgroup : a.kind = .group
      · simp only [List.isEmpty_iff, hnil, if_false, Approver.isGroup, hgroup, decide_true,
          if_true, membersProblems_eq_nil_iff] at hmembers
        exact ⟨hnamed, hknown, fun _ => hgroup, hmembers.1, hmembers.2.2, hmembers.2.1⟩
      · simp [hnil, Approver.isGroup, hgroup] at hmembers
  · intro h
    refine ⟨⟨h.named, h.known⟩, ?_⟩
    by_cases hnil : a.members = []
    · simp [hnil]
    · have hmembers : membersProblems i a.members = [] := membersProblems_eq_nil_iff.mpr
        ⟨h.members_named, h.members_distinct, h.members_known⟩
      simp [hnil, Approver.isGroup, h.group_of_members hnil, hmembers]

theorem repetitionProblems_eq_nil_iff {i : Nat} {before : List Approver} {a : Approver} :
    repetitionProblems i before a = [] ↔ ∀ b ∈ before, b.key ≠ a.key := by
  simp [repetitionProblems, List.findIdx?_eq_none_iff]

/-- Validation finds nothing exactly in well-formed specifications. The repetitions that are looked
for approver by approver come together in `approvers_distinct`. -/
theorem problems_eq_nil_iff {s : Spec} : s.problems = [] ↔ s.WellFormed := by
  rw [problems, List.append_eq_nil_iff]
  by_cases hnil : s.approvers = []
  · simp only [hnil, List.isEmpty_nil, if_true, List.cons_ne_self, and_false, false_iff]
    exact fun h => h.approvers_ne_nil hnil
  · simp only [List.isEmpty_iff, hnil, if_false, zipIdx_flatMap_eq_nil_iff,
      List.append_eq_nil_iff, approverProblems_eq_nil_iff, repetitionProblems_eq_nil_iff]
    constructor
    · intro h
      obtain ⟨hrequired, happrovers⟩ := h
      refine ⟨by simpa using hrequired, hnil, ?_, ?_⟩
      · exact nodup_map_iff_take.mpr fun i a ha => (happrovers i a ha).2
      · intro a ha
        obtain ⟨i, hi⟩ := List.mem_iff_getElem?.mp ha
        exact (happrovers i a hi).1
    · intro h
      refine ⟨by simpa using h.required_pos, fun i a ha => ⟨?_, ?_⟩⟩
      · exact h.approvers_wellFormed a (List.mem_of_getElem? ha)
      · exact nodup_map_iff_take.mp h.approvers_distinct i a ha

/-- The second round of a creation finds nothing exactly if everybody is still pending. -/
theorem votedProblems_eq_nil_iff {s : Spec} : s.votedProblems = [] ↔ s.AllPending := by
  simp only [votedProblems, zipIdx_flatMap_eq_nil_iff, List.append_eq_nil_iff,
    problemIf_eq_nil_iff, ite_eq_left_iff, reduceCtorEq, imp_false, not_not]
  constructor
  · intro h
    refine ⟨fun a ha => ?_, fun a ha m hm => ?_⟩
    · obtain ⟨i, hi⟩ := List.mem_iff_getElem?.mp ha
      exact (h i a hi).1
    · obtain ⟨i, hi⟩ := List.mem_iff_getElem?.mp ha
      obtain ⟨j, hj⟩ := List.mem_iff_getElem?.mp hm
      exact (h i a hi).2 j m hj
  · intro h i a ha
    have hmem : a ∈ s.approvers := List.mem_of_getElem? ha
    exact ⟨h.approvers_pending a hmem,
      fun j m hm => h.members_pending a hmem m (List.mem_of_getElem? hm)⟩

theorem validate_eq_ok_iff {s : Spec} : s.validate = .ok () ↔ s.WellFormed := by
  rw [validate, verdict_eq_ok_iff, problems_eq_nil_iff]

theorem validateNew_eq_ok_iff {s : Spec} :
    s.validateNew = .ok () ↔ s.WellFormed ∧ s.AllPending := by
  rw [validateNew, verdict_eq_ok_iff, creationProblems, List.append_eq_nil_iff,
    problems_eq_nil_iff, votedProblems_eq_nil_iff]

end Quorum.Spec
