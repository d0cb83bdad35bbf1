import Tydomio.Protocol.Model.Message
import Mathlib.Logic.Function.Basic

/-!
# Pending requests

`pending_requests.py`: the futures of the requests sent and not answered
yet, by transaction id. A future is named by the number of futures made
before it, and `store` holds the state of each: dropping a future from the
registry does not touch its state, and the source compares futures by
identity.
-/

namespace Tydomio

open Common Protocol

namespace Client

/-- **The state of a future.** -/
inductive Future where
  | waiting
  | result (response : Response)
  | exception (error : Exc)
  | cancelled
  deriving DecidableEq

/-- `Future.done()`. -/
def Future.done : Future → Bool
  | waiting => false
  | _ => true

/-- `PendingRequests`, with the states of the futures it made. -/
structure PendingRequests where
  /-- `_futures`. -/
  futures : Dict ℤ ℕ
  /-- The state of each future. -/
  store : ℕ → Future
  /-- The future made next. -/
  next : ℕ

namespace PendingRequests

/-- `__init__`: no request pending. -/
def init : PendingRequests := ⟨∅, fun _ => .waiting, 0⟩

/-- `__contains__`. -/
def contains (p : PendingRequests) (transactionId : ℤ) : Bool := p.futures.contains transactionId

/-- `register`: the new future is `p.next`. -/
def register (p : PendingRequests) (transactionId : ℤ) : PendingRequests :=
  ⟨p.futures.set transactionId p.next, Function.update p.store p.next .waiting, p.next + 1⟩

/-- `resolve`: whether a waiting request took the response. -/
def resolve (p : PendingRequests) (response : Response) : Except Exc (Bool × PendingRequests) :=
  match response.transacId with
  | .error e => .error e
  | .ok none => .ok (false, p)
  | .ok (some id) =>
      match p.futures.get? id with
      | none => .ok (false, p)
      | some f =>
          let futures := p.futures.erase id
          if (p.store f).done then .ok (false, { p with futures })
          else .ok (true, { p with futures, store := Function.update p.store f (.result response) })

/-- `abandon`. -/
def abandon (p : PendingRequests) (transactionId : ℤ) (f : ℕ) : PendingRequests :=
  if p.futures.get? transactionId = some f then
    { p with futures := p.futures.erase transactionId }
  else p

/-- `flush`. -/
def flush (p : PendingRequests) (error : Exc) : PendingRequests :=
  { p with
    futures := ∅
    store := fun f =>
      if f ∈ p.futures.values ∧ (p.store f).done = false then .exception error else p.store f }

/-- `Future.cancel()` of a future, which a done one ignores. -/
def cancel (p : PendingRequests) (f : ℕ) : PendingRequests :=
  if (p.store f).done then p else { p with store := Function.update p.store f .cancelled }

end PendingRequests

end Client

end Tydomio
