import Czy.Lib.Stages
import Czy.Spec.TcpServer
import Mathlib.Tactic

/-! The names that a server gives its connections, and its calls one by one. -/

namespace Czy.Net

theorem length_cStr_le (s : String) : (cStr s).length ≤ s.length := by
  rw [cStr, String.length_ofList, ← String.length_toList]
  exact (List.takeWhile_prefix _).length_le

theorem snprintf_of_fits {size : ℕ} {s : String} (h : s.length < size) : snprintf size s = s := by
  rw [snprintf, List.take_of_length_le, String.ofList_toList]
  rw [String.length_toList]
  omega

theorem length_repr_le {n : ℤ} (h0 : 0 ≤ n) (h : n < 2 ^ 31) : n.repr.length ≤ 10 := by
  rw [Int.repr_eq_if, if_pos h0, Nat.length_repr_le_iff (by omega)]
  omega

theorem repr_injective {m n : ℤ} (hm : 0 ≤ m) (hn : 0 ≤ n) (h : m.repr = n.repr) : m = n := by
  rw [Int.repr_eq_if, if_pos hm, Int.repr_eq_if, if_pos hn] at h
  have hdigits := congrArg (fun s => Nat.ofDigitChars 10 s.toList 0) h
  have : m.toNat = n.toNat := by simpa using hdigits
  omega

theorem conname_eq {ipPort : String} (hip : ipPort.length ≤ 51) (name : String) {n : ℤ} (h0 : 0 ≤ n)
    (h : n < 2 ^ 31) : conname name ipPort n = name ++ ("-" ++ cStr ipPort ++ "#" ++ n.repr) := by
  have hip' := (length_cStr_le ipPort).trans hip
  have hrepr := length_repr_le h0 h
  have hdash : "-".length = 1 := rfl
  have hhash : "#".length = 1 := rfl
  rw [conname, snprintf_of_fits]
  simp only [String.length_append]
  omega

theorem conname_injective {ipPort : String} (hip : ipPort.length ≤ 51) (name : String) {m n : ℤ}
    (hm0 : 0 ≤ m) (hm : m < 2 ^ 31) (hn0 : 0 ≤ n) (hn : n < 2 ^ 31)
    (h : conname name ipPort m = conname name ipPort n) : m = n := by
  rw [conname_eq hip name hm0 hm, conname_eq hip name hn0 hn, String.append_right_inj,
    String.append_right_inj] at h
  exact repr_injective hm0 hn0 h

theorem assertInLoopThread_ok {t loop : LoopId} (h : t = loop) : assertInLoopThread t loop = .ok () :=
  if_pos h

theorem getNextLoop_ok {p : EventLoopThreadPool} (h : p.started = true) :
    ∃ loop p', p.getNextLoop baseLoop = .ok (loop, p') ∧ p'.started = true := by
  unfold EventLoopThreadPool.getNextLoop
  rw [assertInLoopThread_ok rfl, ok_bind, require_bind h]
  split
  · exact ⟨_, _, rfl, h⟩
  · exact ⟨_, _, rfl, h⟩

theorem startPool_ok {p : EventLoopThreadPool} (h : p.started = false) :
    ∃ p', p.start baseLoop = .ok p' ∧ p'.started = true := by
  unfold EventLoopThreadPool.start
  rw [require_bind h, assertInLoopThread_ok rfl, ok_bind]
  exact ⟨_, rfl, rfl⟩

namespace TcpServer

variable {s : TcpServer} {c : TcpConnectionPtr} {t loop : LoopId} {cb : ServerFunctor}

theorem runInLoop_here (h : t = loop) : s.runInLoop t loop cb = s.call t cb := if_pos h

theorem runInLoop_there (h : t ≠ loop) : s.runInLoop t loop cb = .ok (s.queueInLoop loop cb) :=
  if_neg h

theorem connectEstablished_call (h : t = c.loop) :
    s.call t (.connectEstablished c) = .ok (s.emit (.connectEstablished c)) := by
  rw [call, assertInLoopThread_ok h, ok_bind]

theorem connectDestory_call (h : t = c.loop) :
    s.call t (.connectDestory c) = .ok (s.emit (.connectDestory c)) := by
  rw [call, assertInLoopThread_ok h, ok_bind]

theorem removeConnectionInLoop_ok (h : s.connections c.name = some c) :
    s.removeConnectionInLoop baseLoop c =
      .ok (({ s with connections := Function.update s.connections c.name none }.emit
        (.erase c (some c))).queueInLoop c.loop (.connectDestory c)) := by
  unfold removeConnectionInLoop
  rw [assertInLoopThread_ok rfl, ok_bind]
  simp only [h]
  rw [require_bind (by simp)]

def nextConn (s : TcpServer) (loop : LoopId) : TcpConnectionPtr :=
  ⟨s.allocated, conname s.name s.ipPort s.nextConnId, loop⟩

theorem newConnection_ok (h : s.threadPool.started = true) :
    ∃ loop pool, pool.started = true ∧ s.newConnection baseLoop =
      ({ s with
        threadPool := pool
        nextConnId := incInt s.nextConnId
        allocated := s.allocated + 1
        connections := Function.update s.connections (s.nextConn loop).name (some (s.nextConn loop))
        }.emit (.insert (s.nextConn loop) (s.connections (s.nextConn loop).name))).runInLoop
          baseLoop loop (.connectEstablished (s.nextConn loop)) := by
  obtain ⟨loop, pool, hnext, hpool⟩ := getNextLoop_ok h
  refine ⟨loop, pool, hpool, ?_⟩
  unfold newConnection
  rw [assertInLoopThread_ok rfl, ok_bind, hnext, ok_bind]
  rfl

theorem setThreadNum_ok (s : TcpServer) (n : ℕ) :
    s.setThreadNum n = .ok { s with threadPool := s.threadPool.setThreadNum n } :=
  require_bind (Int.natCast_nonneg n) _ _

/-- The pool has started and the acceptor listens, or neither. -/
def Consistent (s : TcpServer) : Prop :=
  s.listening = s.started ∧ s.threadPool.started = s.started

theorem start_ok (h : s.Consistent) : ∃ s', s.start baseLoop = .ok s' ∧ s'.Consistent ∧
    s' = { s with started := s'.started, threadPool := s'.threadPool, listening := s'.listening } := by
  by_cases hs : s.started = true
  · exact ⟨s, if_pos hs, h, rfl⟩
  · have hoff := Bool.eq_false_iff.2 hs
    obtain ⟨pool, hpool, hstarted⟩ := startPool_ok (h.2.trans hoff)
    refine ⟨{ s with started := true, threadPool := pool, listening := true }, ?_, ⟨rfl, hstarted⟩, rfl⟩
    rw [start, if_neg hs, hpool, ok_bind, require_bind (h.1.trans hoff)]

end TcpServer

end Czy.Net
