import Quorum.Integer
import Quorum.Proofs.HexDigits
import Quorum.Proofs.Matched

/-!
# No two approver lists share their octets

Whatever precedes its content with the length of it can be read off the front of the octets that
follow: texts, members, approvers, and the list of them, each from the ones before. So two lists
that are encoded alike list approvers that read the same, in whatever order
(`Encoding.matching_of_list_eq`). Lengths are counted in 64 bits.
-/
namespace Quorum

/-- What a member is encoded by. Members that agree in it are not told apart by a digest. -/
def Member.texts (m : Member) : String × String := (m.name, m.vote.text)

/-- The approvers read the same, but for the order of their members. -/
structure Approver.ReadsAs (a b : Approver) : Prop where
  kind : a.kind.text = b.kind.text
  name : a.name = b.name
  vote : a.vote.text = b.vote.text
  message : a.message = b.message
  members : (a.members.map Member.texts).Perm (b.members.map Member.texts)

/-- The lists can be matched one to one, so that approvers that are matched read the same. -/
def Approver.Matching (as bs : List Approver) : Prop :=
  ∃ cs, as.Perm cs ∧ List.Forall₂ Approver.ReadsAs cs bs

namespace Digest.Encoding
variable {m n : Nat} {s t : String} {a b : Approver} {as bs : List Approver} {x y : List UInt8}

/-- A text whose length fits into the eight octets that are written in front of it. -/
def TextFits (s : String) : Prop := (octets s).length ≤ Bounds.nat64Max

instance (s : String) : Decidable (TextFits s) := inferInstanceAs (Decidable (_ ≤ _))

/-- An approver that can be encoded without loss: every text and the number of its members fit into
eight octets. -/
structure ApproverFits (a : Approver) : Prop where
  kind : TextFits a.kind.text
  name : TextFits a.name
  vote : TextFits a.vote.text
  message : ∀ s ∈ a.message, TextFits s
  members_length : a.members.length ≤ Bounds.nat64Max
  members : ∀ m ∈ a.members, TextFits m.name ∧ TextFits m.vote.text

instance (a : Approver) : Decidable (ApproverFits a) :=
  decidable_of_iff (TextFits a.kind.text ∧ TextFits a.name ∧ TextFits a.vote.text ∧
      (∀ s ∈ a.message, TextFits s) ∧ a.members.length ≤ Bounds.nat64Max ∧
      ∀ m ∈ a.members, TextFits m.name ∧ TextFits m.vote.text)
    ⟨fun ⟨kind, name, vote, message, length, members⟩ =>
      ⟨kind, name, vote, message, length, members⟩,
      fun ⟨kind, name, vote, message, length, members⟩ =>
      ⟨kind, name, vote, message, length, members⟩⟩

/-- A list that can be encoded without loss, as any list can that is held in memory. -/
structure ListFits (as : List Approver) : Prop where
  length : as.length ≤ Bounds.nat64Max
  approvers : ∀ a ∈ as, ApproverFits a

instance (as : List Approver) : Decidable (ListFits as) :=
  decidable_of_iff (as.length ≤ Bounds.nat64Max ∧ ∀ a ∈ as, ApproverFits a)
    ⟨fun ⟨length, approvers⟩ => ⟨length, approvers⟩,
      fun ⟨length, approvers⟩ => ⟨length, approvers⟩⟩

theorem eq_of_count_eq (hm : m ≤ Bounds.nat64Max) (hn : n ≤ Bounds.nat64Max)
    (h : count m = count n) : m = n := by
  have hoctet : ∀ i < 8, m / 256 ^ i % 256 = n / 256 ^ i % 256 := by
    intro i hi
    have := congrArg UInt8.toNat (List.map_inj_left.mp h i (List.mem_range.mpr hi))
    simpa [Nat.shiftRight_eq_div_pow, Nat.pow_mul] using this
  have hlow : ∀ k ≤ 8, m % 256 ^ k = n % 256 ^ k := by
    intro k hk
    induction k with
    | zero => rw [Nat.pow_zero, Nat.mod_one, Nat.mod_one]
    | succ k ih => rw [Nat.mod_pow_succ, Nat.mod_pow_succ, ih (by omega), hoctet k (by omega)]
  have hbelow : ∀ k ≤ Bounds.nat64Max, k % 256 ^ 8 = k := by
    intro k hk
    refine Nat.mod_eq_of_lt ?_
    unfold Bounds.nat64Max at hk
    omega
  rw [← hbelow m hm, ← hbelow n hn, hlow 8 (by decide)]

theorem count_append_inj (h : count m ++ x = count n ++ y) : count m = count n ∧ x = y :=
  List.append_inj h (by simp)

theorem text_append_inj (hs : TextFits s) (ht : TextFits t) (h : text s ++ x = text t ++ y) :
    s = t ∧ x = y := by
  simp only [text, List.append_assoc] at h
  obtain ⟨hcount, hrest⟩ := count_append_inj h
  obtain ⟨hoctets, hrest⟩ := List.append_inj hrest (eq_of_count_eq hs ht hcount)
  exact ⟨eq_of_octets_eq hoctets, hrest⟩

theorem optionalText_append_inj {s t : Option String} (hs : ∀ u ∈ s, TextFits u)
    (ht : ∀ u ∈ t, TextFits u) (h : optionalText s ++ x = optionalText t ++ y) :
    s = t ∧ x = y := by
  cases s with
  | none =>
    cases t with
    | none => exact ⟨rfl, by simpa [optionalText] using h⟩
    | some t => simp [optionalText] at h
  | some s =>
    cases t with
    | none => simp [optionalText] at h
    | some t =>
      have htext : text s ++ x = text t ++ y := by simpa [optionalText] using h
      obtain ⟨rfl, hrest⟩ := text_append_inj (hs s rfl) (ht t rfl) htext
      exact ⟨rfl, hrest⟩

/-- Items that can be read one by one are read in a row, if it is known how many there are. -/
theorem flatMap_append_inj {α : Type} {encode : α → List UInt8} {ps qs : List α}
    (hlength : ps.length = qs.length)
    (hinj : ∀ p ∈ ps, ∀ q ∈ qs, ∀ x y, encode p ++ x = encode q ++ y → p = q ∧ x = y)
    (h : ps.flatMap encode ++ x = qs.flatMap encode ++ y) : ps = qs ∧ x = y := by
  induction ps generalizing qs with
  | nil =>
    obtain rfl := List.eq_nil_of_length_eq_zero hlength.symm
    exact ⟨rfl, h⟩
  | cons p ps ih =>
    cases qs with
    | nil => cases hlength
    | cons q qs =>
      simp only [List.flatMap_cons, List.append_assoc] at h
      obtain ⟨rfl, htail⟩ := hinj p List.mem_cons_self q List.mem_cons_self _ _ h
      obtain ⟨rfl, hrest⟩ := ih (Nat.succ.inj hlength)
        (fun p hp q hq => hinj p (List.mem_cons_of_mem _ hp) q (List.mem_cons_of_mem _ hq)) htail
      exact ⟨rfl, hrest⟩

theorem members_append_inj {ms ns : List Member} (hms : ms.length ≤ Bounds.nat64Max)
    (hns : ns.length ≤ Bounds.nat64Max) (hm : ∀ m ∈ ms, TextFits m.name ∧ TextFits m.vote.text)
    (hn : ∀ n ∈ ns, TextFits n.name ∧ TextFits n.vote.text)
    (h : members ms ++ x = members ns ++ y) :
    (ms.map Member.texts).Perm (ns.map Member.texts) ∧ x = y := by
  let pair (p : String × String) : List UInt8 := text p.1 ++ text p.2
  let sorted (ms : List Member) := (ms.mergeSort memberLe).map Member.texts
  have hmembers (ms : List Member) : members ms = count ms.length ++ (sorted ms).flatMap pair := by
    rw [members, List.flatMap_map]
    rfl
  have hfits (ms : List Member) (hm : ∀ m ∈ ms, TextFits m.name ∧ TextFits m.vote.text) :
      ∀ p ∈ sorted ms, TextFits p.1 ∧ TextFits p.2 := by
    intro p hp
    obtain ⟨m, hmem, rfl⟩ := List.mem_map.mp hp
    exact hm m (List.mem_mergeSort.mp hmem)
  have hperm (ms : List Member) : (sorted ms).Perm (ms.map Member.texts) :=
    (List.mergeSort_perm ms memberLe).map _
  rw [hmembers, hmembers, List.append_assoc, List.append_assoc] at h
  obtain ⟨hcount, hrest⟩ := count_append_inj h
  have hlength : (sorted ms).length = (sorted ns).length := by
    rw [(hperm ms).length_eq, (hperm ns).length_eq, List.length_map, List.length_map]
    exact eq_of_count_eq hms hns hcount
  have hpair : ∀ p ∈ sorted ms, ∀ q ∈ sorted ns, ∀ x y, pair p ++ x = pair q ++ y →
      p = q ∧ x = y := by
    intro p hp q hq x y h
    obtain ⟨hp₁, hp₂⟩ := hfits ms hm p hp
    obtain ⟨hq₁, hq₂⟩ := hfits ns hn q hq
    simp only [pair, List.append_assoc] at h
    obtain ⟨hname, hrest⟩ := text_append_inj hp₁ hq₁ h
    obtain ⟨hvote, hrest⟩ := text_append_inj hp₂ hq₂ hrest
    exact ⟨Prod.ext hname hvote, hrest⟩
  obtain ⟨hsame, hrest⟩ := flatMap_append_inj hlength hpair hrest
  exact ⟨(hperm ms).symm.trans (hsame ▸ hperm ns), hrest⟩

theorem body_append_inj (ha : ApproverFits a) (hb : ApproverFits b)
    (h : body a ++ x = body b ++ y) : a.ReadsAs b ∧ x = y := by
  simp only [body, List.append_assoc] at h
  obtain ⟨hkind, h⟩ := text_append_inj ha.kind hb.kind h
  obtain ⟨hname, h⟩ := text_append_inj ha.name hb.name h
  obtain ⟨hvote, h⟩ := text_append_inj ha.vote hb.vote h
  obtain ⟨hmessage, h⟩ := optionalText_append_inj ha.message hb.message h
  obtain ⟨hmembers, h⟩ :=
    members_append_inj ha.members_length hb.members_length ha.members hb.members h
  exact ⟨⟨hkind, hname, hvote, hmessage, hmembers⟩, h⟩

/-- The length in front of a frame is not needed to read it: its content shows where it ends. -/
theorem frame_append_inj (ha : ApproverFits a) (hb : ApproverFits b)
    (h : frame a ++ x = frame b ++ y) : a.ReadsAs b ∧ x = y := by
  simp only [frame, List.append_assoc] at h
  exact body_append_inj ha hb (count_append_inj h).2

theorem frames_perm_of_list_eq (has : ListFits as) (hbs : ListFits bs) (h : list as = list bs) :
    (as.map frame).Perm (bs.map frame) := by
  let sorted (as : List Approver) := (as.map frame).mergeSort fun x y => decide (x ≤ y)
  have hperm (as : List Approver) : (sorted as).Perm (as.map frame) := List.mergeSort_perm _ _
  have hfits (as : List Approver) (has : ListFits as) :
      ∀ f ∈ sorted as, ∃ a, ApproverFits a ∧ frame a = f := by
    intro f hf
    obtain ⟨a, ha, rfl⟩ := List.mem_map.mp (List.mem_mergeSort.mp hf)
    exact ⟨a, has.approvers a ha, rfl⟩
  obtain ⟨hcount, hrest⟩ := count_append_inj h
  have hlength : (sorted as).length = (sorted bs).length := by
    rw [(hperm as).length_eq, (hperm bs).length_eq, List.length_map, List.length_map]
    exact eq_of_count_eq has.length hbs.length hcount
  have hframe : ∀ f ∈ sorted as, ∀ g ∈ sorted bs, ∀ x y, id f ++ x = id g ++ y →
      f = g ∧ x = y := by
    intro f hf g hg x y h
    obtain ⟨a, ha, rfl⟩ := hfits as has f hf
    obtain ⟨b, hb, rfl⟩ := hfits bs hbs g hg
    obtain ⟨-, rfl⟩ := frame_append_inj ha hb h
    exact ⟨List.append_cancel_right h, rfl⟩
  have hflat : (sorted as).flatMap id ++ [] = (sorted bs).flatMap id ++ [] := by
    simpa only [List.flatMap_id, List.append_nil] using hrest
  obtain ⟨hsame, -⟩ := flatMap_append_inj hlength hframe hflat
  exact (hperm as).symm.trans (hsame ▸ hperm bs)

/-- Lists that are encoded alike list approvers that read the same. -/
theorem matching_of_list_eq (has : ListFits as) (hbs : ListFits bs) (h : list as = list bs) :
    Approver.Matching as bs := by
  refine (MatchedBy.of_map_perm (frames_perm_of_list_eq has hbs h)).mono ?_
  intro a ha b hb hframe
  exact (frame_append_inj (x := []) (y := []) (has.approvers a ha) (hbs.approvers b hb)
    (by rw [hframe])).1

end Digest.Encoding
end Quorum
