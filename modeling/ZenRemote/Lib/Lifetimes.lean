-- SUMMARY: Histories of events that create, use and delete keys, and replicas that are given several of them in pieces.
import Mathlib.Data.List.Nodup

/-!
# Lifetimes

An event may create a key, use one and delete one. In an orderly history every event
finds the key that it uses. A replica is given several histories, each in its own
order, but interleaved in any way.
-/

universe u v w

/-- What an event does with keys. -/
structure Lifetimes (ε : Type u) (κ : Type v) where
  creates : ε → Option κ
  uses : ε → Option κ
  deletes : ε → Option κ

namespace Lifetimes

variable {ι : Type w} {ε : Type u} {κ : Type v} (L : Lifetimes ε κ)

def created (es : List ε) : List κ := es.filterMap L.creates

def deleted (es : List ε) : List κ := es.filterMap L.deletes

/-- The key has been created and not been deleted. -/
def Present (es : List ε) (p : κ) : Prop := p ∈ L.created es ∧ p ∉ L.deleted es

instance [DecidableEq κ] (es : List ε) (p : κ) : Decidable (L.Present es p) :=
  inferInstanceAs (Decidable (_ ∧ _))

/-- What an event needs of the events before it. -/
structure Admits (es : List ε) (e : ε) : Prop where
  uses : ∀ p, L.uses e = some p → L.Present es p
  deletes : ∀ p, L.deletes e = some p → L.Present es p

def Orderly (es : List ε) : Prop := ∀ before e, before ++ [e] <+: es → L.Admits before e

/-- Every key is created once, and in one of the histories only. -/
structure Distinct (H : ι → List ε) : Prop where
  once : ∀ i, (L.created (H i)).Nodup
  home : ∀ i j p, p ∈ L.created (H i) → p ∈ L.created (H j) → i = j

/-- A replica has the keys that are present in one of the histories. -/
def Mirrors (has : κ → Prop) (H : ι → List ε) : Prop := ∀ p, has p ↔ ∃ i, L.Present (H i) p

variable {L} {es es' : List ε} {e : ε} {p : κ} {H H' : ι → List ε} {has has' : κ → Prop}

theorem created_append : L.created (es ++ es') = L.created es ++ L.created es' := List.filterMap_append

theorem deleted_append : L.deleted (es ++ es') = L.deleted es ++ L.deleted es' := List.filterMap_append

theorem mem_created_singleton : p ∈ L.created [e] ↔ L.creates e = some p := by
  simp [created]

theorem mem_deleted_singleton : p ∈ L.deleted [e] ↔ L.deletes e = some p := by
  simp [deleted]

theorem present_concat : L.Present (es ++ [e]) p ↔
    (L.creates e = some p ∨ p ∈ L.created es) ∧ p ∉ L.deleted es ∧ L.deletes e ≠ some p := by
  rw [Present, created_append, deleted_append, List.mem_append, List.mem_append,
    mem_created_singleton, mem_deleted_singleton, or_comm, not_or]

theorem created_mono (h : es <+: es') (hp : p ∈ L.created es) : p ∈ L.created es' := by
  obtain ⟨rest, rfl⟩ := h
  rw [created_append]
  exact List.mem_append_left _ hp

-- ---------------------------------------------------------------------------
-- Orderly histories
-- ---------------------------------------------------------------------------

theorem orderly_nil : L.Orderly [] := by
  intro before e h
  exact absurd (List.prefix_nil.mp h) (by simp)

theorem Orderly.earlier (h : L.Orderly es') (hpre : es <+: es') : L.Orderly es :=
  fun before e hbefore => h before e (hbefore.trans hpre)

theorem Orderly.admits (h : L.Orderly (es ++ [e])) : L.Admits es e := h es e (List.prefix_refl _)

theorem Orderly.concat (h : L.Orderly es) (he : L.Admits es e) : L.Orderly (es ++ [e]) := by
  intro before e' hbefore
  rcases List.prefix_concat_iff.mp hbefore with heq | hbefore
  · obtain ⟨rfl, hlast⟩ := List.append_inj' heq rfl
    cases hlast
    exact he
  · exact h before e' hbefore

/-- Only what was created is deleted. -/
theorem Orderly.created_of_deleted (h : L.Orderly es) (hp : p ∈ L.deleted es) : p ∈ L.created es := by
  obtain ⟨e, he, hdeletes⟩ := List.mem_filterMap.mp hp
  obtain ⟨before, after, rfl⟩ := List.append_of_mem he
  have hpre : before ++ [e] <+: before ++ e :: after := ⟨after, (List.append_cons ..).symm⟩
  have hcreated := ((h before e hpre).deletes p hdeletes).1
  exact created_mono (List.prefix_append _ _) hcreated

theorem Distinct.earlier (h : L.Distinct H') (hpre : ∀ i, H i <+: H' i) : L.Distinct H where
  once i := (h.once i).sublist ((hpre i).sublist.filterMap _)
  home i j p hi hj :=
    h.home i j p (created_mono (hpre i) hi) (created_mono (hpre j) hj)

-- ---------------------------------------------------------------------------
-- Delivery
-- ---------------------------------------------------------------------------

/-- The next event of one history is delivered. -/
theorem presentIn_deliver {i : ι} (hdistinct : L.Distinct H') (horderly : ∀ j, L.Orderly (H' j))
    (hnext : H' i = H i ++ [e]) (hothers : ∀ j, j ≠ i → H' j = H j) (p : κ) :
    (∃ j, L.Present (H' j) p) ↔
      (L.creates e = some p ∨ ∃ j, L.Present (H j) p) ∧ L.deletes e ≠ some p := by
  have hadmits : L.Admits (H i) e := (hnext ▸ horderly i).admits
  have hpresent : L.Present (H' i) p ↔
      (L.creates e = some p ∨ p ∈ L.created (H i)) ∧ p ∉ L.deleted (H i) ∧ L.deletes e ≠ some p := by
    rw [hnext, present_concat]
  constructor
  · rintro ⟨j, hj⟩
    by_cases hji : j = i
    · subst hji
      obtain ⟨hcreated, hdeleted, hdeletes⟩ := hpresent.mp hj
      exact ⟨hcreated.imp_right fun h => ⟨j, h, hdeleted⟩, hdeletes⟩
    · refine ⟨.inr ⟨j, hothers j hji ▸ hj⟩, fun hdeletes => ?_⟩
      -- the event deletes only what was created in its own history
      have hcreated : p ∈ L.created (H' i) := by
        rw [hnext]
        exact created_mono (List.prefix_append _ _) (hadmits.deletes p hdeletes).1
      exact hji (hdistinct.home j i p hj.1 hcreated)
  · rintro ⟨hcreates | ⟨j, hj⟩, hdeletes⟩
    · refine ⟨i, hpresent.mpr ⟨.inl hcreates, fun hdeleted => ?_, hdeletes⟩⟩
      have hbefore : L.Orderly (H i) := (horderly i).earlier (hnext ▸ List.prefix_append _ _)
      have honce := hdistinct.once i
      rw [hnext, created_append, List.nodup_append] at honce
      exact honce.2.2 p (hbefore.created_of_deleted hdeleted) p (mem_created_singleton.mpr hcreates) rfl
    · by_cases hji : j = i
      · subst hji
        exact ⟨j, hpresent.mpr ⟨.inr hj.1, hj.2, hdeletes⟩⟩
      · exact ⟨j, hothers j hji ▸ hj⟩

/-- A replica that adds what is created and drops what is deleted goes on mirroring. -/
theorem Mirrors.deliver (h : L.Mirrors has H) {i : ι} (hdistinct : L.Distinct H')
    (horderly : ∀ j, L.Orderly (H' j)) (hnext : H' i = H i ++ [e])
    (hothers : ∀ j, j ≠ i → H' j = H j)
    (hhas : ∀ p, has' p ↔ (L.creates e = some p ∨ has p) ∧ L.deletes e ≠ some p) :
    L.Mirrors has' H' := by
  intro p
  rw [hhas, h p, presentIn_deliver hdistinct horderly hnext hothers]

/-- The replica has what the next event uses. -/
theorem Mirrors.has_of_uses (h : L.Mirrors has H) {i : ι} (horderly : L.Orderly (H i ++ [e]))
    (huses : L.uses e = some p) : has p :=
  (h p).mpr ⟨i, horderly.admits.uses p huses⟩

/-- A new key has not been created, or deleted, in any of the histories. -/
theorem Distinct.not_created_of_next {i : ι} (hdistinct : L.Distinct H') (hnext : H' i = H i ++ [e])
    (hothers : ∀ j, j ≠ i → H' j = H j) (hcreates : L.creates e = some p) (j : ι) :
    p ∉ L.created (H j) := by
  intro hcreated
  have hnew : p ∈ L.created (H' i) := by
    rw [hnext, created_append]
    exact List.mem_append_right _ (mem_created_singleton.mpr hcreates)
  by_cases hji : j = i
  · subst hji
    have honce := hdistinct.once j
    rw [hnext, created_append, List.nodup_append] at honce
    exact honce.2.2 p hcreated p (mem_created_singleton.mpr hcreates) rfl
  · exact hji (hdistinct.home j i p (hothers j hji ▸ hcreated) hnew)

end Lifetimes
