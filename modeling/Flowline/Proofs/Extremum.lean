/-
  What `max` and `min` choose.

  Both go through their items once and keep the best one so far.  Since strict
  comparisons are transitive, also between integers and floats, an item that
  did not beat the best so far cannot beat a later one either.

  * `Builtin.exists_bestOf_iff`: which items are all compared without a fault;
  * `Builtin.bestOf_unbeaten`: no item beats the one that is kept;
  * `Builtin.chooses_extremum`: what `max` and `min` give for any arguments.
-/
import Flowline.Proofs.Order
import Flowline.Builtin.Apply

namespace Flowline

namespace Builtin

/-! ## Going through the items -/

open Value (Orderable)

section
variable {f : Builtin} {o : Comparison} {want : Ordering}

/-- All items are compared without a fault exactly if all of them have an order. -/
theorem exists_bestOf_iff {best : Value} {vs : List Value} :
    (∃ v, bestOf f want best vs = .ok v) ↔ vs = [] ∨ Orderable (best :: vs) := by
  induction vs generalizing best with
  | nil => simp [bestOf]
  | cons w ws ih =>
    have hhead : Orderable (best :: w :: ws) → Orderable [w, best] := fun h =>
      h.imp (fun hv => by simp_all) (fun hv => by simp_all)
    simp only [bestOf, reduceCtorEq, false_or]
    cases hord : w.ordering best with
    | error fault =>
      refine iff_of_false (fun ⟨v, hv⟩ => by cases hv) fun h => ?_
      obtain ⟨ord, hok⟩ := Value.exists_ordering_iff.2 (hhead h)
      cases hord.symm.trans hok
    | ok ord =>
      have hpair := Value.exists_ordering_iff.1 ⟨ord, hord⟩
      have hpair' := (Value.orderable_congr (List.Perm.swap w best [])).2 hpair
      have hnext : ws = [] → Orderable (best :: w :: ws) := by
        rintro rfl
        exact hpair'
      rw [ih]
      split
      · rw [hpair.cons_iff]
        exact or_iff_right_of_imp hnext
      · rw [hpair'.cons_iff, Value.orderable_congr (List.Perm.swap best w ws)]
        exact or_iff_right_of_imp hnext

/-- **No item beats the one that is kept**, which is one of the items. -/
theorem bestOf_unbeaten (ho : o.strict? = some want) {best v : Value} {vs : List Value}
    (h : bestOf f want best vs = .ok v) :
    v ∈ best :: vs ∧ (v = best ∨ o.Holds v best) ∧ ∀ w ∈ best :: vs, ¬ o.Holds w v := by
  induction vs generalizing best with
  | nil =>
    obtain rfl : best = v := by simpa only [bestOf, Except.ok.injEq] using h
    exact ⟨List.mem_cons_self, .inl rfl, by simpa using Comparison.strict_irrefl ho best⟩
  | cons w ws ih =>
    rw [bestOf] at h
    cases hord : w.ordering best with
    | error fault =>
      rw [hord] at h
      cases h
    | ok ord =>
      simp only [hord] at h
      have hbeats : o.Holds w best ↔ ord = some want := by
        rw [Comparison.holds_iff_ordering ho, hord, Except.ok.injEq]
      split at h
      next hwant =>
        -- The new item beats the best so far, and what is kept in the end does too.
        have hw := hbeats.2 hwant
        obtain ⟨hmem, hreach, hun⟩ := ih h
        have hv : o.Holds v best := by
          rcases hreach with rfl | hvw
          · exact hw
          · exact Comparison.strict_trans ho hvw hw
        refine ⟨List.mem_cons_of_mem _ hmem, .inr hv, ?_⟩
        refine List.forall_mem_cons.2 ⟨fun hbest => ?_, hun⟩
        exact Comparison.strict_irrefl ho best (Comparison.strict_trans ho hbest hv)
      next hwant =>
        have hw : ¬ o.Holds w best := fun hw => hwant (hbeats.1 hw)
        obtain ⟨hmem, hreach, hun⟩ := ih h
        refine ⟨?_, hreach, ?_⟩
        · simp only [List.mem_cons] at hmem ⊢
          tauto
        · rw [List.forall_mem_cons] at hun ⊢
          refine ⟨hun.1, List.forall_mem_cons.2 ⟨fun hwv => hw ?_, hun.2⟩⟩
          rcases hreach with rfl | hv
          · exact hwv
          · exact Comparison.strict_trans ho hwv hv

end

/-! ## Extrema -/

/-- What a function gives that chooses the item that no other is `better` than. -/
structure Chooses (f : Builtin) (better worse : Comparison) (args : List Value) : Prop where
  /-- From nothing there is nothing to choose. -/
  empty : candidates args = [] →
    (f.apply args).mapError CallFault.toError =
      .error { kind := .callFailure, message := f.name ++ "() arg is an empty sequence" }
  /-- An only item need not be compared. -/
  single : ∀ v, candidates args = [v] → f.apply args = .ok v
  /-- Several items must be all numbers or all strings. -/
  defined : 2 ≤ (candidates args).length →
    ((∃ v, f.apply args = .ok v) ↔
      (∀ w ∈ candidates args, w.isNumber) ∨ ∀ w ∈ candidates args, w.isStr)
  mem : ∀ v, f.apply args = .ok v → v ∈ candidates args
  unbeaten : ∀ v, f.apply args = .ok v → ∀ w ∈ candidates args, ¬ better.Holds w v
  /-- From the same items in another order, something is chosen that stands no higher
      and no lower. -/
  permuted : ∀ v, f.apply args = .ok v → ∀ args', (candidates args').Perm (candidates args) →
    ∃ v', f.apply args' = .ok v' ∧ ¬ better.Holds v' v ∧ ¬ worse.Holds v' v

section
variable {f : Builtin} {better worse : Comparison} {want : Ordering}

theorem exists_extremum_iff {args : List Value} :
    (∃ v, extremum f want args = .ok v) ↔
      (∃ v, candidates args = [v]) ∨ candidates args ≠ [] ∧ Orderable (candidates args) := by
  unfold extremum
  cases candidates args with
  | nil => simp
  | cons w ws => rw [exists_bestOf_iff]; simp

theorem extremum_unbeaten (ho : better.strict? = some want) {args : List Value} {v : Value}
    (h : extremum f want args = .ok v) :
    v ∈ candidates args ∧ ∀ w ∈ candidates args, ¬ better.Holds w v := by
  unfold extremum at h
  split at h
  next => cases h
  next w ws hitems =>
    obtain ⟨hmem, -, hun⟩ := bestOf_unbeaten ho h
    rw [hitems]
    exact ⟨hmem, hun⟩

theorem chooses_of_apply (ho : better.strict? = some want)
    (hworse : ∀ a b, worse.Holds a b ↔ better.Holds b a)
    (hf : ∀ args, f.apply args = extremum f want args) (args : List Value) :
    Chooses f better worse args := by
  constructor <;> simp only [hf]
  case empty =>
    intro hitems
    unfold extremum
    rw [hitems]
    rfl
  case single =>
    intro v hitems
    unfold extremum
    rw [hitems]
    rfl
  case defined =>
    intro hlength
    rw [exists_extremum_iff]
    have hmany : ¬ ∃ v, candidates args = [v] := by
      rintro ⟨v, hv⟩
      simp [hv] at hlength
    have hsome : candidates args ≠ [] := by
      intro hnil
      simp [hnil] at hlength
    simp only [hmany, false_or, ne_eq, hsome, not_false_eq_true, true_and, Orderable]
  case mem => exact fun v h => (extremum_unbeaten ho h).1
  case unbeaten => exact fun v h => (extremum_unbeaten ho h).2
  case permuted =>
    intro v h args' hperm
    have hsome : ∃ v', extremum f want args' = .ok v' := by
      rw [exists_extremum_iff, Value.orderable_congr hperm]
      refine (exists_extremum_iff.1 ⟨v, h⟩).imp ?_ (And.imp_left ?_)
      · rintro ⟨w, hw⟩
        rw [hw] at hperm
        exact ⟨w, hperm.eq_singleton⟩
      · intro hne hnil
        rw [hnil] at hperm
        exact hne hperm.symm.eq_nil
    obtain ⟨v', h'⟩ := hsome
    obtain ⟨hmem, hun⟩ := extremum_unbeaten ho h
    obtain ⟨hmem', hun'⟩ := extremum_unbeaten ho h'
    refine ⟨v', h', hun v' (hperm.subset hmem'), ?_⟩
    rw [hworse]
    exact hun' v (hperm.symm.subset hmem)

end

/-- **`max` gives an item that no other is greater than, and `min` one that no other
    is less than**, for any mix of integers, floats and truth values, and also beside
    floats that are not numbers. -/
theorem chooses_extremum (args : List Value) :
    Chooses .max .gt .lt args ∧ Chooses .min .lt .gt args :=
  ⟨chooses_of_apply rfl (fun _ _ => Value.gt_iff_lt.symm) (fun _ => rfl) args,
    chooses_of_apply rfl (fun _ _ => Value.gt_iff_lt) (fun _ => rfl) args⟩

end Builtin

end Flowline
