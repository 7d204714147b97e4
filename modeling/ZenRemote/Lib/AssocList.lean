-- SUMMARY: Association lists with unique keys as bags of values: what an insertion, a removal and a filter do to the bag.
import Mathlib.Data.List.AList

/-!
# Values of an association list

An association list that owns what its values hold is a bag: replacing the value
under a key exchanges what the old value holds for what the new one holds.
-/

open scoped List

universe u v w

namespace AList

variable {κ : Type u} {β : Type v} {γ : Type w} [DecidableEq κ]

/-- What all values hold together. -/
def contents (f : β → List γ) (s : AList (fun _ : κ => β)) : List γ :=
  s.entries.flatMap fun e => f e.2

theorem entries_perm_of_lookup {s : AList (fun _ : κ => β)} {a : κ} {b : β}
    (h : s.lookup a = some b) : s.entries ~ ⟨a, b⟩ :: (s.erase a).entries := by
  have hmem : (⟨a, b⟩ : Sigma fun _ : κ => β) ∈ s.entries := List.of_mem_dlookup h
  obtain ⟨b', l₁, l₂, -, hs, herase⟩ := List.exists_of_kerase (List.mem_keys_of_mem hmem)
  obtain rfl : b' = b := by
    have hmem' : (⟨a, b'⟩ : Sigma fun _ : κ => β) ∈ s.entries := by
      rw [hs]
      simp
    exact s.nodupKeys.eq_of_mk_mem hmem' hmem
  show s.entries ~ ⟨a, b'⟩ :: s.entries.kerase a
  rw [herase, hs]
  exact List.perm_middle

theorem contents_of_lookup (f : β → List γ) {s : AList (fun _ : κ => β)} {a : κ} {b : β}
    (h : s.lookup a = some b) : s.contents f ~ f b ++ (s.erase a).contents f :=
  (entries_perm_of_lookup h).flatMap_right _

theorem contents_of_not_mem (f : β → List γ) {s : AList (fun _ : κ => β)} {a : κ}
    (h : s.lookup a = none) : (s.erase a).contents f = s.contents f := by
  have herase : s.entries.kerase a = s.entries :=
    List.kerase_of_notMem_keys fun hmem => lookup_eq_none.mp h hmem
  show (s.entries.kerase a).flatMap _ = _
  rw [herase]
  rfl

theorem contents_insert (f : β → List γ) (s : AList (fun _ : κ => β)) (a : κ) (b : β) :
    (s.insert a b).contents f = f b ++ (s.erase a).contents f := by
  rw [contents, entries_insert]
  rfl

theorem mem_contents {f : β → List γ} {s : AList (fun _ : κ => β)} {c : γ} :
    c ∈ s.contents f ↔ ∃ a b, s.lookup a = some b ∧ c ∈ f b := by
  rw [contents, List.mem_flatMap]
  constructor
  · rintro ⟨⟨a, b⟩, hmem, hc⟩
    exact ⟨a, b, mem_lookup_iff.mpr hmem, hc⟩
  · rintro ⟨a, b, hlookup, hc⟩
    exact ⟨⟨a, b⟩, mem_lookup_iff.mp hlookup, hc⟩

def mapValues (f : β → β) (s : AList (fun _ : κ => β)) : AList (fun _ : κ => β) where
  entries := s.entries.map fun e => ⟨e.1, f e.2⟩
  nodupKeys := by
    have hkeys : (s.entries.map fun e => (⟨e.1, f e.2⟩ : Sigma fun _ : κ => β)).keys =
        s.entries.keys := by
      rw [List.keys, List.map_map]
      rfl
    rw [List.NodupKeys, hkeys]
    exact s.nodupKeys

theorem lookup_mapValues (f : β → β) (s : AList (fun _ : κ => β)) (a : κ) :
    (s.mapValues f).lookup a = (s.lookup a).map f :=
  List.dlookup_map₂ (f := fun _ : κ => f) a

/-- The entries whose key meets `p`. -/
def filterKeys (p : κ → Bool) (s : AList (fun _ : κ => β)) : AList (fun _ : κ => β) where
  entries := s.entries.filter fun e => p e.1
  nodupKeys := s.nodupKeys.sublist List.filter_sublist

theorem lookup_filterKeys (p : κ → Bool) (s : AList (fun _ : κ => β)) (a : κ) :
    (s.filterKeys p).lookup a = if p a then s.lookup a else none := by
  ext b
  rw [← Option.mem_def, mem_lookup_iff, filterKeys]
  simp only [List.mem_filter, ← mem_lookup_iff]
  split
  · rename_i hp
    simp [hp]
  · rename_i hp
    simp [hp]

omit [DecidableEq κ] in
theorem contents_filterKeys_perm (f : β → List γ) (p : κ → Bool) (s : AList (fun _ : κ => β)) :
    (s.filterKeys p).contents f ++ (s.filterKeys fun a => !p a).contents f ~ s.contents f := by
  simp only [contents, filterKeys]
  rw [← List.flatMap_append]
  exact (List.filter_append_perm _ _).flatMap_right _

/-- An entry that a filter does not keep can be removed before it. -/
theorem filter_entries_erase {s : AList (fun _ : κ => β)} {a : κ} {p : (Sigma fun _ : κ => β) → Bool}
    (h : ∀ e ∈ s.entries, e.1 = a → p e = false) :
    (s.erase a).entries.filter p = s.entries.filter p := by
  have hlist : ∀ l : List (Sigma fun _ : κ => β), (∀ e ∈ l, e.1 = a → p e = false) →
      (l.kerase a).filter p = l.filter p := by
    intro l hl
    induction l with
    | nil => rfl
    | cons e l ih =>
      obtain ⟨he, hrest⟩ := List.forall_mem_cons.mp hl
      by_cases hkey : a = e.1
      · rw [List.kerase_cons_eq hkey, List.filter_cons_of_neg]
        rw [he hkey.symm]
        exact Bool.false_ne_true
      · rw [List.kerase_cons_ne hkey, List.filter_cons, List.filter_cons, ih hrest]
  exact hlist s.entries h

/-- When everything that is made of an entry bears its key, what bears a key is made of
the entry under it. -/
theorem filter_flatMap_entries (s : AList (fun _ : κ => β)) (f : κ → β → List γ) (key : γ → Option κ)
    (hkey : ∀ e ∈ s.entries, ∀ c ∈ f e.1 e.2, key c = some e.1) (a : κ) :
    (s.entries.flatMap fun e => f e.1 e.2).filter (fun c => key c = some a) =
      ((s.lookup a).map (f a)).getD [] := by
  have hlist : ∀ l : List (Sigma fun _ : κ => β), l.NodupKeys →
      (∀ e ∈ l, ∀ c ∈ f e.1 e.2, key c = some e.1) →
      (l.flatMap fun e => f e.1 e.2).filter (fun c => key c = some a) =
        ((l.dlookup a).map (f a)).getD [] := by
    intro l
    induction l with
    | nil => exact fun _ _ => rfl
    | cons e l ih =>
      intro hnodup hkey
      obtain ⟨hfresh, hnodup⟩ := List.nodupKeys_cons.mp hnodup
      have hrest := ih hnodup fun e he => hkey e (List.mem_cons_of_mem _ he)
      have hhead := hkey e List.mem_cons_self
      rw [List.flatMap_cons, List.filter_append, hrest]
      cases Decidable.em (a = e.1) with
      | inl heq =>
        subst heq
        have hall : (f e.1 e.2).filter (fun c => key c = some e.1) = f e.1 e.2 :=
          List.filter_eq_self.mpr fun c hc => decide_eq_true (hhead c hc)
        rw [hall, List.dlookup_eq_none.mpr hfresh, List.dlookup_cons_eq]
        exact List.append_nil _
      | inr hne =>
        have hnone : (f e.1 e.2).filter (fun c => key c = some a) = [] := by
          apply List.filter_eq_nil_iff.mpr
          intro c hc
          rw [hhead c hc, decide_eq_true_eq]
          exact fun heq => hne (Option.some.inj heq).symm
        rw [hnone, List.dlookup_cons_ne _ _ hne]
        rfl
  exact hlist s.entries s.nodupKeys hkey

end AList
