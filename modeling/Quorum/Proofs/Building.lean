import Quorum.Draft
import Quorum.Proofs.Roster

/-!
# Building the task of a run

What parsing accepts is judged once more when the task is built. The two judges agree on everything
but white space in the name of a group: parsing looks for the space itself, building for any blank.
So a run that was parsed builds its task unless the name of a group has a blank in it, and then that
is all that is reported (`TaskParams.parsed_builds_but_for_blanks`).
-/
namespace Quorum
open Spec

/-- An approver as parsing leaves it: nobody has voted, and there are no members. -/
inductive Approver.Parsed : Approver → Prop
  | user {name : String} (named : UserName name) : Parsed (.user name)
  | group {name : String} (not_blank : Text.blank name = false) (no_colon : ':' ∉ name.toList)
      (no_space : ' ' ∉ name.toList) : Parsed (.group name)

/-- What parameters that were read have in common. The name of a group may still have a blank in it
that is no space, which validation refuses. -/
structure TaskParams.Parsed (p : TaskParams) : Prop where
  required_pos : 0 < p.required
  required_fits : Bounds.inInt64 p.required = true
  approvers_ne_nil : p.approvers ≠ []
  approvers_distinct : (p.approvers.map Approver.key).Nodup
  approvers_parsed : ∀ a ∈ p.approvers, a.Parsed

def Approver.hasBlank (a : Approver) : Bool := a.isGroup && a.name.toList.any Text.isBlank

/-- A blank in the name of a group. It is the one defect that approvers from parameters can still
have. -/
def Approver.blankDefect? (a : Approver) : Option Defect :=
  if a.hasBlank then some .blankInGroupName else none

/-- What is wrong with the groups that have a blank in their names, in their order. -/
def TaskParams.blankProblems (p : TaskParams) : List Problem :=
  p.approvers.zipIdx.flatMap fun (a, i) => problemIf a.blankDefect? (.name i)

namespace Approver.Parsed
variable {a : Approver} {raw : String}

theorem of_accepted (h : TaskParams.Accepted raw) : (Approver.named raw).Parsed := by
  rcases named_cases raw with ⟨g, hraw, hnamed⟩ | ⟨hunmarked, hnamed⟩
  · obtain ⟨hblank, hcolon, hspace⟩ := h.group g hraw
    rw [hnamed]
    exact .group hblank hcolon hspace
  · rw [hnamed]
    exact .user ⟨h.not_blank, hunmarked⟩

theorem vote_pending (h : a.Parsed) : a.vote = .pending := by
  cases h <;> rfl

theorem no_members (h : a.Parsed) : a.members = [] := by
  cases h <;> rfl

/-- The name is where the judges can differ, and only over a blank. -/
theorem kindProblems_eq (i : Nat) (h : a.Parsed) :
    kindProblems i a = problemIf a.blankDefect? (.name i) := by
  cases h with
  | user hnamed => exact kindProblems_eq_nil_iff.mpr (.inl ⟨rfl, hnamed⟩)
  | @group name hblank hcolon =>
    have hcolons : name.toList.contains ':' = false := by simpa using hcolon
    change problemIf (groupNameDefect? name) _ =
      problemIf (if name.toList.any Text.isBlank then _ else _) _
    simp only [groupNameDefect?, hblank, hcolons, Bool.false_eq_true, if_false]

theorem approverProblems_eq (i : Nat) (h : a.Parsed) :
    approverProblems i a = problemIf a.blankDefect? (.name i) := by
  have hvote : voteDefect? a.vote = none := by rw [h.vote_pending]; rfl
  simp [approverProblems, hvote, h.no_members, h.kindProblems_eq, problemIf]

end Approver.Parsed

namespace TaskParams
variable {params : List Param} {p : TaskParams}

theorem Parsed.of_ofParams (h : ofParams params = .ok p) : p.Parsed := by
  obtain ⟨⟨q, -, hgiven⟩, hpos, hfits⟩ := TaskParams.of_ofParams h
  have hne : p.approvers ≠ [] := (ofParams_eq_ok_iff.mp h).2
  have hdistinct := approversOf_distinct hgiven
  obtain ⟨names, -, haccepted, hnames⟩ := approversOf_eq_ok_iff.mp hgiven
  refine ⟨hpos, hfits, hne, hdistinct, fun a ha => ?_⟩
  rw [hnames] at ha
  obtain ⟨raw, hraw, rfl⟩ := List.mem_map.mp ha
  exact .of_accepted (haccepted raw (List.mem_eraseDups.mp hraw))

theorem Parsed.problems_eq (h : p.Parsed) : p.spec.problems = p.blankProblems := by
  have hrequired : ¬ p.spec.required ≤ 0 := Int.not_le.mpr h.required_pos
  have hnonempty : p.spec.approvers.isEmpty = false := by simpa [spec] using h.approvers_ne_nil
  rw [problems, if_neg hrequired, hnonempty, List.nil_append, blankProblems]
  apply List.flatMap_congr
  rintro ⟨a, i⟩ hai
  have ha : p.spec.approvers[i]? = some a := List.mk_mem_zipIdx_iff_getElem?.mp hai
  have hnew : repetitionProblems i (p.spec.approvers.take i) a = [] :=
    repetitionProblems_eq_nil_iff.mpr (nodup_map_iff_take.mp h.approvers_distinct i a ha)
  have hparsed : a.Parsed := h.approvers_parsed a (List.mem_of_getElem? ha)
  simp only [hparsed.approverProblems_eq, hnew, List.append_nil]

theorem Parsed.allPending (h : p.Parsed) : p.spec.AllPending where
  approvers_pending a ha := (h.approvers_parsed a ha).vote_pending
  members_pending a ha m hm := by
    rw [(h.approvers_parsed a ha).no_members] at hm
    cases hm

theorem Parsed.creationProblems_eq (h : p.Parsed) :
    p.spec.creationProblems = p.blankProblems := by
  rw [creationProblems, h.problems_eq, votedProblems_eq_nil_iff.mpr h.allPending, List.append_nil]

theorem blankProblems_eq_nil_iff :
    p.blankProblems = [] ↔ ∀ a ∈ p.approvers, a.hasBlank = false := by
  rw [blankProblems, zipIdx_flatMap_eq_nil_iff]
  simp only [problemIf_eq_nil_iff, Approver.blankDefect?, ite_eq_right_iff, reduceCtorEq, imp_false,
    Bool.not_eq_true]
  constructor
  · intro h a ha
    obtain ⟨i, hi⟩ := List.mem_iff_getElem?.mp ha
    exact h i a hi
  · intro h i a ha
    exact h a (List.mem_of_getElem? ha)

theorem toTask_eq_map (name : String) (now : Instant) :
    p.toTask name now = p.spec.validateNew.map fun _ => p.task name now := by
  rw [toTask]
  cases p.spec.validateNew <;> rfl

/-- Parameters that were parsed are good for a task but for one thing: a group may have a blank in
its name. They build the task if no group has one. Otherwise those groups are reported, and nothing
else is. -/
theorem parsed_builds_but_for_blanks (h : ofParams params = .ok p) (name : String)
    (now : Instant) :
    p.Parsed ∧
    p.toTask name now = (verdict p.blankProblems).map (fun _ => p.task name now) ∧
    ((∃ t, p.toTask name now = .ok t) ↔ ∀ a ∈ p.approvers, a.hasBlank = false) := by
  have hparsed := Parsed.of_ofParams h
  have hbuilt : p.toTask name now = (verdict p.blankProblems).map (fun _ => p.task name now) := by
    rw [toTask_eq_map, validateNew, hparsed.creationProblems_eq]
  refine ⟨hparsed, hbuilt, ?_⟩
  rw [← blankProblems_eq_nil_iff, hbuilt]
  constructor
  · rintro ⟨t, ht⟩
    cases hproblems : p.blankProblems with
    | nil => rfl
    | cons problem problems =>
      rw [hproblems] at ht
      cases ht
  · intro hnil
    rw [hnil]
    exact ⟨_, rfl⟩

def spacedParams : TaskParams := { approvers := [.user "ann lee", .group "qa"] }

/-- A space in the name of a user does no harm. -/
theorem spaced_user_builds :
    ofParams [⟨"approvers", .list ["ann lee", "group:qa", "ann lee"]⟩] = .ok spacedParams ∧
      spacedParams.Parsed ∧
      spacedParams.toTask "gate" Draft.epoch = .ok (spacedParams.task "gate" Draft.epoch) := by
  have hparams : ofParams [⟨"approvers", .list ["ann lee", "group:qa", "ann lee"]⟩] =
      .ok spacedParams := by rfl
  have hnone : spacedParams.blankProblems = [] := by rfl
  obtain ⟨hparsed, hbuilt, -⟩ := parsed_builds_but_for_blanks hparams "gate" Draft.epoch
  rw [hnone] at hbuilt
  exact ⟨hparams, hparsed, hbuilt⟩

/-- A tab is no space, but it is blank: the run is parsed, and its task is refused. -/
theorem tab_in_group_is_refused :
    ∃ p, ofParams [⟨"approvers", .list ["group:qa\tteam"]⟩] = .ok p ∧
      p.toTask "gate" Draft.epoch = .error ⟨⟨.name 0, .blankInGroupName⟩, []⟩ :=
  ⟨{ approvers := [.group "qa\tteam"] }, rfl, rfl⟩

end TaskParams
end Quorum
