import Tydomio.Client.Model.Pending

/-!
# What the registry's operations do

One lemma for each operation: what it does to the registry and to the
states of the futures, guards included. Nothing after this file unfolds
them.
-/

namespace Tydomio

open Common Protocol

namespace Client

theorem Future.done_eq_false {f : Future} : f.done = false ↔ f = .waiting := by
  cases f <;> simp [Future.done]

/-- The text of the `transac-id` header, if there is one, is an integer:
a sign, then at most 4300 digits, single underscores between them. -/
def ReadableTransacId (response : Response) : Prop :=
  ∀ text, response.headers.get? "transac-id" = some text → (Text.readInt text).isSome = true

/-- Reading a transaction id raises nothing exactly when it is readable. -/
theorem transacId_eq_ok_iff {response : Response} :
    (∃ id, response.transacId = .ok id) ↔ ReadableTransacId response := by
  unfold Response.transacId ReadableTransacId
  cases response.headers.get? "transac-id" with
  | none => simp
  | some text => cases h : Text.readInt text <;> simp [h]

/-- And raises a `ValueError` otherwise. -/
theorem eq_valueError_of_transacId {response : Response} {e : Exc}
    (h : response.transacId = .error e) : e = .valueError := by
  unfold Response.transacId at h
  split at h
  · cases h
  · split at h
    · exact (Except.error.inj h).symm
    · cases h

namespace PendingRequests

variable {p p' : PendingRequests} {id id' : ℤ} {f g : ℕ} {response : Response}

/-! ## Registering and forgetting -/

@[simp] theorem register_next : (p.register id).next = p.next + 1 := rfl

@[simp] theorem register_get? :
    (p.register id).futures.get? id' = if id' = id then some p.next else p.futures.get? id' :=
  Dict.get?_set ..

/-- A free transaction id is not one that is registered. -/
theorem ne_of_get? (hget : p.futures.get? id = some f) (hfree : p.futures.get? id' = none) :
    id ≠ id' := by
  rintro rfl
  rw [hfree] at hget
  cases hget

@[simp] theorem register_store_self : (p.register id).store p.next = .waiting :=
  Function.update_self ..

theorem register_store_of_ne (h : g ≠ p.next) : (p.register id).store g = p.store g :=
  Function.update_of_ne h ..

@[simp] theorem abandon_store : (p.abandon id f).store = p.store := by
  unfold abandon; split <;> rfl

@[simp] theorem abandon_next : (p.abandon id f).next = p.next := by
  unfold abandon; split <;> rfl

/-- Abandoning removes the entry of the given future only. -/
theorem abandon_get? :
    (p.abandon id f).futures.get? id' =
      if id' = id ∧ p.futures.get? id = some f then none else p.futures.get? id' := by
  unfold abandon
  split
  · rename_i h
    simp only [Dict.get?_erase, h, and_true]
  · rename_i h
    rw [if_neg fun hc => h hc.2]

@[simp] theorem cancel_futures : (p.cancel f).futures = p.futures := by
  unfold cancel; split <;> rfl

@[simp] theorem cancel_next : (p.cancel f).next = p.next := by
  unfold cancel; split <;> rfl

/-- Cancelling a future changes its state only, and only if it waits. -/
theorem cancel_store :
    (p.cancel f).store g = if g = f ∧ p.store f = .waiting then .cancelled else p.store g := by
  unfold cancel
  cases hdone : (p.store f).done with
  | true =>
      have hne : p.store f ≠ .waiting := by
        intro h
        rw [h] at hdone
        cases hdone
      rw [if_pos rfl, if_neg fun hc => hne hc.2]
  | false =>
      rw [if_neg Bool.false_ne_true, Future.done_eq_false.1 hdone]
      by_cases hg : g = f
      · rw [if_pos ⟨hg, rfl⟩, hg]
        exact Function.update_self ..
      · rw [if_neg fun hc => hg hc.1]
        exact Function.update_of_ne hg ..

@[simp] theorem flush_next {e : Exc} : (p.flush e).next = p.next := rfl

/-- Flushing fails the registered futures that wait, and no other. -/
theorem flush_store {e : Exc} :
    (p.flush e).store g =
      if g ∈ p.futures.values ∧ p.store g = .waiting then .exception e else p.store g := by
  simp only [flush, Future.done_eq_false]

/-! ## Resolving -/

/-- Resolving raises exactly on an unreadable transaction id. -/
theorem resolve_ok_iff : (∃ r, p.resolve response = .ok r) ↔ ReadableTransacId response := by
  rw [← transacId_eq_ok_iff]
  unfold resolve
  cases response.transacId with
  | error e => simp
  | ok id =>
      refine iff_of_true ?_ ⟨id, rfl⟩
      cases id with
      | none => exact ⟨_, rfl⟩
      | some id =>
          dsimp only
          split
          · exact ⟨_, rfl⟩
          · split <;> exact ⟨_, rfl⟩

/-- **A response taken**: a request waited under its transaction id; its
future now holds the response and is out of the registry. -/
theorem resolve_true (h : p.resolve response = .ok (true, p')) :
    ∃ id f, response.transacId = .ok (some id) ∧ p.futures.get? id = some f ∧
      p.store f = .waiting ∧
      p' = { p with
        futures := p.futures.erase id
        store := Function.update p.store f (.result response) } := by
  unfold resolve at h
  split at h
  · cases h
  · simp at h
  · rename_i id hid
    split at h
    · simp at h
    · rename_i f hf
      cases hdone : (p.store f).done with
      | true => simp [hdone] at h
      | false =>
          simp only [hdone, Bool.false_eq_true, if_false, Except.ok.injEq, Prod.mk.injEq,
            true_and] at h
          exact ⟨id, f, hid, hf, Future.done_eq_false.1 hdone, h.symm⟩

/-- **A response dropped**: no request waits under its transaction id. No
future changes; a done one under that id is forgotten. -/
theorem resolve_false (h : p.resolve response = .ok (false, p')) :
    p'.store = p.store ∧ p'.next = p.next ∧
      (∀ id f, response.transacId = .ok (some id) → p.futures.get? id = some f →
        p.store f ≠ .waiting) ∧
      (p'.futures = p.futures ∨ ∃ id, response.transacId = .ok (some id) ∧
        p'.futures = p.futures.erase id) := by
  unfold resolve at h
  split at h
  · cases h
  · rename_i hid
    simp only [Except.ok.injEq, Prod.mk.injEq, true_and] at h
    rw [← h]
    exact ⟨rfl, rfl, fun id f hid' => by simp [hid] at hid', .inl rfl⟩
  · rename_i id hid
    split at h
    · rename_i hf
      simp only [Except.ok.injEq, Prod.mk.injEq, true_and] at h
      rw [← h]
      refine ⟨rfl, rfl, fun id' f hid' hget => ?_, .inl rfl⟩
      rw [hid, Except.ok.injEq, Option.some.injEq] at hid'
      rw [← hid', hf] at hget
      cases hget
    · rename_i f hf
      cases hdone : (p.store f).done with
      | false => simp [hdone] at h
      | true =>
          simp only [hdone, if_true, Except.ok.injEq, Prod.mk.injEq, true_and] at h
          rw [← h]
          refine ⟨rfl, rfl, fun id' g hid' hget hwait => ?_, .inr ⟨id, hid, rfl⟩⟩
          rw [hid, Except.ok.injEq, Option.some.injEq] at hid'
          rw [← hid', hf, Option.some.injEq] at hget
          rw [hget, hwait] at hdone
          cases hdone

end PendingRequests

end Client

end Tydomio
