import Reflection.Dispatcher.Link
import Reflection.Proofs.Checks
/-!
# What passes the checks of a connection

However a connection is asked for, it is made by `Dispatcher.link` and only if its ends are active.
-/

namespace Reflection.Dispatcher

variable {x : Dispatcher} {sender receiver : ObjectId} {type : ConnectionType}
  {p : ConnectionId × Dispatcher}

/-- A connection between active objects. -/
structure Admits (x : Dispatcher) (c : Connection) : Prop where
  sender : (x.active? c.sender).isSome
  receiver : ∀ o, c.target.receiver? = some o → (x.active? o).isSome

theorem endpoint_eq_ok_iff {o : ObjectId} {r : Registration} :
    x.endpoint o = .ok r ↔ x.object? o = some r := by
  unfold endpoint
  cases x.object? o with
  | none => exact ⟨fun h => (nomatch h), fun h => (nomatch h)⟩
  | some r' => exact ⟨fun h => by cases h; rfl, fun h => by cases h; rfl⟩

theorem requireActive_eq_ok_iff {r : Registration} : requireActive r = .ok () ↔ r.isActive := by
  unfold requireActive
  cases r.isActive with
  | true => exact ⟨fun _ => rfl, fun _ => rfl⟩
  | false => exact ⟨fun h => (nomatch h), fun h => (nomatch h)⟩

theorem active?_isSome {o : ObjectId} {r : Registration} (h : x.object? o = some r)
    (active : r.isActive) : (x.active? o).isSome := by
  simp [active?, h, active]

theorem connectByIndex_eq_ok {signal slot : Nat}
    (h : x.connectByIndex sender signal receiver slot type = .ok p) :
    ∃ c, x.Admits c ∧ p = x.link c := by
  simp only [connectByIndex, bind_eq_ok_iff, refuse_bind_eq_ok_iff] at h
  obtain ⟨source, hs, destination, hd, _, -, _, -, -, _, first, _, second, h⟩ := h
  refine ⟨_, ⟨active?_isSome (endpoint_eq_ok_iff.1 hs) (requireActive_eq_ok_iff.1 first), ?_⟩,
    (Except.ok.inj h).symm⟩
  intro o ho
  cases ho
  exact active?_isSome (endpoint_eq_ok_iff.1 hd) (requireActive_eq_ok_iff.1 second)

theorem connect_eq_ok {signal slot : String}
    (h : x.connect sender signal receiver slot type = .ok p) : ∃ c, x.Admits c ∧ p = x.link c := by
  simp only [connect, bind_eq_ok_iff] at h
  obtain ⟨_, -, _, -, _, -, _, -, _, -, _, -, h⟩ := h
  exact connectByIndex_eq_ok h

theorem connectCallback_eq_ok {signal : String} {context : Context} {callback : CallbackId}
    (h : x.connectCallback sender signal context callback type = .ok p) :
    ∃ c, x.Admits c ∧ p = x.link c := by
  simp only [connectCallback, bind_eq_ok_iff] at h
  obtain ⟨_, -, source, hs, _, -, _, active, h⟩ := h
  refine ⟨_, ⟨active?_isSome (endpoint_eq_ok_iff.1 hs) (requireActive_eq_ok_iff.1 active), ?_⟩,
    (Except.ok.inj h).symm⟩
  intro o ho
  cases ho

end Reflection.Dispatcher
