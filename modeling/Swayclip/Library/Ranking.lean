import Mathlib.Data.List.Sort
import Mathlib.Data.List.Nodup

/-! # Ranking a table by a key

A query `ORDER BY key DESC` sorts the rows of a table; the number of rows with a
greater key is the position of a row in the result. When the keys are distinct the
sorted list is determined by its members, so inserting, deleting and moving rows
act on it as the obvious list operations.
-/

namespace Swayclip.Library.Ranking

variable {α κ : Type*} [LinearOrder κ]

/-- The rows in the order `ORDER BY key DESC`. -/
def sortDesc (key : α → κ) (l : List α) : List α :=
  l.insertionSort (fun a b => key b ≤ key a)

/-- How many rows of the table are ahead of the key `k`. -/
def rank (key : α → κ) (l : List α) (k : κ) : ℕ :=
  l.countP (fun a => k < key a)

/-- No two rows share a key. -/
def Distinct (key : α → κ) (l : List α) : Prop := (l.map key).Nodup

theorem sortDesc_perm (key : α → κ) (l : List α) : (sortDesc key l).Perm l :=
  List.perm_insertionSort _ l

@[simp] theorem mem_sortDesc {key : α → κ} {l : List α} {a : α} : a ∈ sortDesc key l ↔ a ∈ l :=
  (sortDesc_perm key l).mem_iff

@[simp] theorem length_sortDesc (key : α → κ) (l : List α) : (sortDesc key l).length = l.length :=
  (sortDesc_perm key l).length_eq

theorem sortDesc_pairwise (key : α → κ) (l : List α) :
    (sortDesc key l).Pairwise (fun a b => key b ≤ key a) := by
  have htotal : Std.Total (fun a b : α => key b ≤ key a) := ⟨fun a b => le_total (key b) (key a)⟩
  have htrans : IsTrans α (fun a b : α => key b ≤ key a) := ⟨fun _ _ _ hab hbc => hbc.trans hab⟩
  exact List.pairwise_insertionSort _ l

omit [LinearOrder κ] in
theorem Distinct.perm {key : α → κ} {l l' : List α} (h : Distinct key l) (hp : l.Perm l') :
    Distinct key l' :=
  (hp.map key).nodup_iff.mp h

omit [LinearOrder κ] in
theorem Distinct.nodup {key : α → κ} {l : List α} (h : Distinct key l) : l.Nodup :=
  List.Nodup.of_map key h

omit [LinearOrder κ] in
theorem Distinct.filter {key : α → κ} {l : List α} (h : Distinct key l) (p : α → Bool) :
    Distinct key (l.filter p) :=
  (List.filter_sublist.map key).nodup h

omit [LinearOrder κ] in
theorem Distinct.eq {key : α → κ} {l : List α} (h : Distinct key l) {a b : α}
    (ha : a ∈ l) (hb : b ∈ l) (hk : key a = key b) : a = b :=
  List.inj_on_of_nodup_map h ha hb hk

/-- Erasing by position is filtering by key. -/
theorem Distinct.eraseIdx_eq_filter {key : α → κ} {l : List α} (h : Distinct key l) {i : ℕ} {a : α}
    (ha : l[i]? = some a) : l.eraseIdx i = l.filter (fun b => key b ≠ key a) := by
  classical
  obtain ⟨hi, rfl⟩ := List.getElem?_eq_some_iff.mp ha
  rw [← h.nodup.erase_getElem i hi, h.nodup.erase_eq_filter]
  refine List.filter_congr fun b hb => ?_
  rw [Bool.eq_iff_iff, bne_iff_ne, decide_eq_true_eq, not_iff_not]
  exact ⟨congrArg key, h.eq hb (List.getElem_mem hi)⟩

theorem sortDesc_strict {key : α → κ} {l : List α} (h : Distinct key l) :
    (sortDesc key l).Pairwise (fun a b => key b < key a) := by
  have hd : (sortDesc key l).Pairwise (fun a b => key a ≠ key b) :=
    List.pairwise_map.mp (h.perm (sortDesc_perm key l).symm)
  exact (sortDesc_pairwise key l).imp₂ (fun a b hle hne => lt_of_le_of_ne hle hne.symm) hd

/-- A strictly decreasing arrangement of the rows is the sorted one. -/
theorem sortDesc_eq_of_perm {key : α → κ} {l l' : List α}
    (hs : l'.Pairwise (fun a b => key b < key a)) (hp : l'.Perm l) : sortDesc key l = l' := by
  have hd : Distinct key l' := by
    rw [Distinct, List.Nodup, List.pairwise_map]
    exact hs.imp (fun hlt => hlt.ne')
  have ht := sortDesc_strict (hd.perm hp)
  refine List.Perm.eq_of_pairwise (fun a b _ _ hab hba => ?_) ht hs
    ((sortDesc_perm key l).trans hp.symm)
  exact absurd (lt_trans hab hba) (lt_irrefl _)

/-- A row whose key exceeds all others goes to the front. -/
theorem sortDesc_append_top {key : α → κ} {l : List α} {a : α} (h : Distinct key l)
    (ha : ∀ b ∈ l, key b < key a) : sortDesc key (l ++ [a]) = a :: sortDesc key l := by
  refine sortDesc_eq_of_perm ?_ ?_
  · rw [List.pairwise_cons]
    exact ⟨fun b hb => ha b (mem_sortDesc.mp hb), sortDesc_strict h⟩
  · exact ((sortDesc_perm key l).cons a).trans (List.perm_append_singleton a l).symm

theorem sortDesc_filter {key : α → κ} {l : List α} (h : Distinct key l) (p : α → Bool) :
    sortDesc key (l.filter p) = (sortDesc key l).filter p :=
  sortDesc_eq_of_perm ((sortDesc_strict h).filter p) ((sortDesc_perm key l).filter p)

/-- Rewriting rows without touching their keys keeps the order. -/
theorem sortDesc_map {key : α → κ} {f : α → α} {l : List α} (hf : ∀ a ∈ l, key (f a) = key a) :
    sortDesc key (l.map f) = (sortDesc key l).map f := by
  refine (List.map_insertionSort (r := fun a b => key b ≤ key a)
    (s := fun a b => key b ≤ key a) f l (fun a ha b hb => ?_)).symm
  rw [hf a ha, hf b hb]

/-- Raising the key of the rows that satisfy `p` above all others moves them to the front;
with distinct keys this is one row. -/
theorem sortDesc_raise {key : α → κ} {f : α → α} {l : List α} {a : α} (h : Distinct key l)
    (ha : a ∈ l) (htop : ∀ b ∈ l, key b < key (f a)) :
    sortDesc key (l.map (fun b => if key b = key a then f b else b)) =
      f a :: (sortDesc key l).filter (fun b => key b ≠ key a) := by
  obtain ⟨s, t, rfl⟩ := List.append_of_mem ha
  have hd : Distinct key (a :: (s ++ t)) := h.perm List.perm_middle
  have hne : ∀ b ∈ s ++ t, key b ≠ key a := by
    intro b hb he
    have hnot := (List.nodup_cons.mp hd).1
    exact hnot (he ▸ List.mem_map_of_mem hb)
  have hmap : ∀ u : List α, (∀ b ∈ u, key b ≠ key a) →
      u.map (fun b => if key b = key a then f b else b) = u := by
    intro u hu
    rw [List.map_congr_left (g := id) (fun b hb => by simp [hu b hb]), List.map_id]
  have hs := hmap s (fun b hb => hne b (List.mem_append_left t hb))
  have ht := hmap t (fun b hb => hne b (List.mem_append_right s hb))
  refine sortDesc_eq_of_perm ?_ ?_
  · rw [List.pairwise_cons]
    refine ⟨fun b hb => htop b (mem_sortDesc.mp (List.mem_filter.mp hb).1), ?_⟩
    exact (sortDesc_strict h).filter _
  · rw [List.map_append, List.map_cons, hs, ht, if_pos rfl]
    refine List.Perm.trans ?_ List.perm_middle.symm
    refine List.Perm.cons _ (((sortDesc_perm key _).filter _).trans ?_)
    refine (List.perm_middle.filter _).trans (List.Perm.of_eq ?_)
    rw [List.filter_cons_of_neg (by simp)]
    exact List.filter_eq_self.mpr (fun b hb => by simpa using hne b hb)

/-- In a strictly decreasing list a member splits off exactly the rows ahead of it. -/
theorem rank_split {key : α → κ} {s t : List α} {a : α}
    (h : (s ++ a :: t).Pairwise (fun a b => key b < key a)) :
    rank key (s ++ a :: t) (key a) = s.length := by
  rw [List.pairwise_append, List.pairwise_cons] at h
  obtain ⟨_, ⟨ht, _⟩, hst⟩ := h
  have hs : s.countP (fun b => key a < key b) = s.length :=
    List.countP_eq_length.mpr (fun b hb => by simpa using hst b hb a (by simp))
  have ht' : t.countP (fun b => key a < key b) = 0 :=
    List.countP_eq_zero.mpr (fun b hb => by simpa using (ht b hb).le)
  simp [rank, List.countP_append, hs, ht']

/-- The rank of a row is its position in the sorted list. -/
theorem sortDesc_getElem_rank {key : α → κ} {l : List α} {a : α} (h : Distinct key l)
    (ha : a ∈ l) : (sortDesc key l)[rank key l (key a)]? = some a := by
  have hstrict := sortDesc_strict h
  have hrank : rank key l (key a) = rank key (sortDesc key l) (key a) :=
    ((sortDesc_perm key l).countP_eq _).symm
  have hmem : a ∈ sortDesc key l := mem_sortDesc.mpr ha
  obtain ⟨s, t, hst⟩ := List.append_of_mem hmem
  rw [hst] at hstrict
  rw [hrank, hst, rank_split hstrict, List.getElem?_append_right le_rfl, Nat.sub_self]
  rfl

/-- The first `n` rows are those with fewer than `n` rows ahead of them. -/
theorem mem_take_sortDesc {key : α → κ} {l : List α} {a : α} {n : ℕ} (h : Distinct key l) :
    a ∈ (sortDesc key l).take n ↔ a ∈ l ∧ rank key l (key a) < n := by
  have hnodup : (sortDesc key l).Nodup := (sortDesc_perm key l).nodup_iff.mpr h.nodup
  constructor
  · intro hm
    have ha : a ∈ l := mem_sortDesc.mp (List.mem_of_mem_take hm)
    refine ⟨ha, ?_⟩
    obtain ⟨i, hi, he⟩ := List.mem_take_iff_getElem.mp hm
    have hr := sortDesc_getElem_rank h ha
    rw [← he] at hr ⊢
    obtain ⟨hlt, hget⟩ := List.getElem?_eq_some_iff.mp hr
    have := (List.Nodup.getElem_inj_iff hnodup).mp hget
    omega
  · rintro ⟨ha, hr⟩
    obtain ⟨hlt, hget⟩ := List.getElem?_eq_some_iff.mp (sortDesc_getElem_rank h ha)
    exact List.mem_take_iff_getElem.mpr ⟨_, by omega, hget⟩

/-- The rows after the first `n` are those with at least `n` rows ahead of them. -/
theorem mem_drop_sortDesc {key : α → κ} {l : List α} {a : α} {n : ℕ} (h : Distinct key l) :
    a ∈ (sortDesc key l).drop n ↔ a ∈ l ∧ n ≤ rank key l (key a) := by
  have hnodup : (sortDesc key l).Nodup := (sortDesc_perm key l).nodup_iff.mpr h.nodup
  have hmem : a ∈ l ↔ a ∈ (sortDesc key l).take n ∨ a ∈ (sortDesc key l).drop n := by
    rw [← List.mem_append, List.take_append_drop, mem_sortDesc]
  rw [← List.take_append_drop n (sortDesc key l), List.nodup_append] at hnodup
  have hdisj : a ∈ (sortDesc key l).take n → a ∉ (sortDesc key l).drop n :=
    fun ht hd => hnodup.2.2 a ht a hd rfl
  rw [mem_take_sortDesc h] at hmem hdisj
  constructor
  · intro hd
    have ha := hmem.mpr (Or.inr hd)
    exact ⟨ha, not_lt.mp (fun hlt => hdisj ⟨ha, hlt⟩ hd)⟩
  · rintro ⟨ha, hn⟩
    exact (hmem.mp ha).resolve_left (fun ht => absurd ht.2 (not_lt.mpr hn))

theorem rank_anti (key : α → κ) (l : List α) {j k : κ} (h : j ≤ k) : rank key l k ≤ rank key l j :=
  List.countP_mono_left fun a _ ha => by simpa using lt_of_le_of_lt h (by simpa using ha)

/-- Two keys agree on the first `n` rows, up to order, exactly when no row beyond the first
`n` of the one key is ahead of a row among them by the other. -/
theorem take_sortDesc_iff {κ' : Type*} [LinearOrder κ'] {key : α → κ} {key' : α → κ'}
    {l : List α} (h : Distinct key l) (h' : Distinct key' l) (n : ℕ) :
    (∀ a ∈ l, a ∈ (sortDesc key l).take n ↔ a ∈ (sortDesc key' l).take n) ↔
      ∀ a ∈ l, ∀ b ∈ l, rank key l (key a) < n → n ≤ rank key l (key b) → key' b < key' a := by
  constructor
  · intro hsame a ha b hb hra hrb
    have hta := ((mem_take_sortDesc h').mp
      ((hsame a ha).mp ((mem_take_sortDesc h).mpr ⟨ha, hra⟩))).2
    have htb : n ≤ rank key' l (key' b) := by
      by_contra hlt
      have := (mem_take_sortDesc h).mp
        ((hsame b hb).mpr ((mem_take_sortDesc h').mpr ⟨hb, not_le.mp hlt⟩))
      omega
    by_contra hle
    have := rank_anti key' l (not_lt.mp hle)
    omega
  · intro hsep
    have hsub : (sortDesc key l).take n ⊆ (sortDesc key' l).take n := by
      intro a ha
      obtain ⟨hal, hra⟩ := (mem_take_sortDesc h).mp ha
      refine (mem_take_sortDesc h').mpr ⟨hal, ?_⟩
      -- only rows among the first `n` are ahead of `a` by the other key, and `a` is not
      have hsplit : rank key' l (key' a) =
          ((sortDesc key l).take n).countP (fun b => key' a < key' b) := by
        have hdrop : ((sortDesc key l).drop n).countP (fun b => key' a < key' b) = 0 := by
          refine List.countP_eq_zero.mpr fun b hb => ?_
          obtain ⟨hbl, hrb⟩ := (mem_drop_sortDesc h).mp hb
          simpa using (hsep a hal b hbl hra hrb).le
        rw [rank, ← (sortDesc_perm key l).countP_eq, ← List.take_append_drop n (sortDesc key l),
          List.countP_append, hdrop, List.take_append_drop, Nat.add_zero]
      have hlt : ((sortDesc key l).take n).countP (fun b => key' a < key' b) <
          ((sortDesc key l).take n).length := by
        refine lt_of_le_of_ne List.countP_le_length fun he => ?_
        simpa using List.countP_eq_length.mp he a ha
      have := List.length_take_le n (sortDesc key l)
      omega
    have hnodup : ((sortDesc key l).take n).Nodup :=
      ((sortDesc_perm key l).nodup_iff.mpr h.nodup).sublist (List.take_sublist _ _)
    have hperm := (List.subperm_of_subset hnodup hsub).perm_of_length_le (by simp)
    exact fun a _ => hperm.mem_iff

end Swayclip.Library.Ranking
