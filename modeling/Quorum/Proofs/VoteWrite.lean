import Quorum.Proofs.OwnVote
import Quorum.Proofs.Stage

/-!
# What a vote has written

A vote answers with the task that it wrote, or with an error if it wrote nothing, however many
writers it meets (`Traffic.vote_wrote_what_it_answers`).
-/
namespace Quorum.Traffic
variable {jobs : Job → Prop} {others : Store → Store → Prop} {w : Traffic} {s : Store}

/-- A vote that returns a task has made one write, and this write is the vote, in the task as it was
stored immediately before; a vote that returns an error has made none. -/
theorem vote_wrote_what_it_answers {b : Ballot} {retries : Nat}
    {answer : Except CastError Task} {landed : List (Store × Store)}
    (hrun : Run (fun _ => True) Store.Write (start s) w) (hroom : w.store.HasRoom b.key)
    (hclient : ⟨.vote b retries, .done answer, landed⟩ ∈ w.clients) :
    match answer with
    | .ok t => ∃ w₁ w₂, Run (fun _ => True) Store.Write (start s) w₁ ∧
        Step (fun _ => True) Store.Write w₁ w₂ ∧ Run (fun _ => True) Store.Write w₂ w ∧
        landed = [(w₁.store, w₂.store)] ∧ b.Lands w₁.store w₂.store t
    | .error _ => landed = [] := by
  have hstage : b.Stage retries w.store (.done answer) landed :=
    (hrun.staged (fun _ _ _ _ hwrite => hwrite.advances) _ hclient).2 hroom
  cases hstage with
  | failed e => rfl
  | @landed before after t hlands =>
    have hlanded : (before, after) ∈ [(before, after)] := List.mem_singleton.mpr rfl
    obtain ⟨w₁, w₂, hw₁, hstep, hw₂, rfl, rfl⟩ := hrun.landed hclient hlanded
    exact ⟨w₁, w₂, hw₁, hstep, hw₂, rfl, hlands⟩

/-- The gate when its user has cast `user` and nobody else a vote. -/
def gateAt (version : Nat) (user : Vote) : Task :=
  { Admission.guardedGate user .pending .pending with metadata.version := version }

def approval : Ballot := ⟨"gate", ⟨"ann", []⟩, .approve, none⟩

theorem approval_proposes {version : Nat} (h : version = 1 ∨ version = 2) :
    approval.Proposes (gateAt version .pending) (gateAt version .approve) := by
  have hchanges (n : Nat) : (gateAt n .pending).spec.changesTo (gateAt n .approve).spec =
      [.vote ⟨.user, "ann"⟩ .approve] := by cbv
  rcases h with rfl | rfl <;>
    refine ⟨rfl, rfl, Admission.update_allowed_of_authorized rfl rfl (by decide)
      (Guard.authorize_eq_allow_iff.mpr
        (Guard.cleared_of_vote .user .approve (hchanges _) ?_ ?_ ?_ ?_ ?_ ?_ ?_ ?_))⟩ <;>
    decide

/-- The vote before and after one of its reads, with `left` tries to go. -/
def reading (left : Nat) : Client := ⟨.vote approval 1, .read (approval.offer 1 left), []⟩

def writing (left version : Nat) : Client :=
  ⟨.vote approval 1, .write (.spec (gateAt version .approve)) (approval.settle 1 left), []⟩

theorem step_reading {left version : Nat} (h : version = 1 ∨ version = 2)
    (hs : s.get? "gate" = some (gateAt version .pending)) :
    Step jobs others ⟨s, [reading left]⟩ ⟨s, [writing left version]⟩ := by
  have hoffer := Ballot.offer_of_proposes 1 left hs (approval_proposes h)
  refine .of_act 0 rfl rfl ?_
  change [writing left version] = [⟨.vote approval 1, approval.offer 1 left s, []⟩]
  rw [hoffer]
  rfl

/-- Another write comes between the vote's read and its write, so the vote is made again. -/
theorem retried_vote_lands :
    ∃ before after w, Run (fun _ => True) Store.Write
        (start (Store.empty.put (gateAt 1 .pending))) w ∧
      ⟨.vote approval 1, .done (.ok (gateAt 3 .approve)), [(before, after)]⟩ ∈ w.clients ∧
      approval.Lands before after (gateAt 3 .approve) := by
  let s₁ := Store.empty.put (gateAt 1 .pending)
  let s₂ := s₁.put (gateAt 2 .pending)
  let s₃ := s₂.put (gateAt 3 .approve)
  let ended : Client := ⟨.vote approval 1, .done (.ok (gateAt 3 .approve)), [(s₂, s₃)]⟩
  have hrun : Run (fun _ => True) Store.Write (start s₁) ⟨s₃, [ended]⟩ := by
    refine .head (b := ⟨s₁, [reading 1]⟩) (.arrive _ (.vote approval 1) trivial) ?_
    refine .head (step_reading (.inl rfl) rfl) ?_
    refine .head (b := ⟨s₂, [writing 1 1]⟩)
      (.write _ s₂ ⟨gateAt 1 .pending, gateAt 2 .pending, .inr (.inr rfl)⟩) ?_
    refine .head (b := ⟨s₂, [reading 0]⟩) (.of_act 0 rfl rfl rfl) ?_
    refine .head (step_reading (.inr rfl) rfl) ?_
    exact .single (.of_act 0 rfl rfl rfl)
  have hroom : s₃.HasRoom approval.key := by
    intro t ht
    obtain rfl : gateAt 3 .approve = t := Option.some.inj ht
    decide
  have hended : ended ∈ (Traffic.mk s₃ [ended]).clients := List.mem_singleton.mpr rfl
  obtain ⟨w₁, w₂, -, -, -, hlanded, hlands⟩ := vote_wrote_what_it_answers hrun hroom hended
  exact ⟨w₁.store, w₂.store, _, hrun, hlanded ▸ hended, hlands⟩

end Quorum.Traffic
