import Czy.Lib.CString
import Czy.Lib.Run
import Czy.Sanity.TcpServer
import Czy.Spec.TcpClient
import Mathlib.Data.List.TakeWhile

/-! The names that a client gives to its connections, cut off by the buffer that they are
printed in. -/

namespace Czy.Net

open StepRun

def InetAddress.text (addr : InetAddress) : String :=
  (if addr.ipv6 then "[" ++ addr.ip ++ "]:" else addr.ip ++ ":") ++ addr.port.toNat.repr

theorem forall_mem_of_all {p : Char → Prop} [DecidablePred p] {l : List Char}
    (h : l.all fun c => p c) : ∀ c ∈ l, p c := fun c hc =>
  of_decide_eq_true (List.all_eq_true.1 h c hc)

namespace InetAddress

variable {addr : InetAddress}

theorem toIp_ok {size : ℕ} (h : 46 ≤ size) : addr.toIp size = .ok addr.ip := by
  rw [toIp]
  split_ifs
  · exact require_bind h _ _
  · exact require_bind (show 16 ≤ size by omega) _ _

theorem toIpPort_ok (addr : InetAddress) : addr.toIpPort = .ok addr.text := by
  have hip := addr.ip_length
  have hport : addr.port.toNat.repr.length ≤ 5 := by
    rw [Nat.length_repr_le_iff (by omega)]
    have := addr.port.toNat_lt
    omega
  have hopen : "[".length = 1 := rfl
  have hclose : "]:".length = 2 := rfl
  have hcolon : ":".length = 1 := rfl
  rw [toIpPort, toIpPortBuf, text]
  unfold inetAddrStrLen inet6AddrStrLen at hip
  by_cases hv6 : addr.ipv6 = true
  · rw [if_pos hv6] at hip
    have hbuf : 64 > ("[" ++ addr.ip).length := by
      rw [String.length_append]
      omega
    rw [if_pos hv6, if_pos hv6, toIp_ok (by decide), ok_bind, require_bind hbuf,
      snprintf_of_fits (by simp only [String.length_append]; omega)]
    simp only [String.append_assoc]
    rfl
  · rw [if_neg hv6] at hip
    rw [if_neg hv6, if_neg hv6, toIp_ok (by decide), ok_bind, require_bind (by omega),
      snprintf_of_fits (by simp only [String.length_append]; omega)]
    simp only [String.append_assoc]
    rfl

/-- A character that ends neither a text in a name nor a C string. -/
def Plain (c : Char) : Prop := c ≠ '#' ∧ c ≠ Char.ofNat 0

instance : DecidablePred Plain := fun _ => inferInstanceAs (Decidable (_ ∧ _))

theorem port_plain (port : UInt16) : ∀ c ∈ port.toNat.repr.toList, Plain c := by
  intro c hc
  rw [Nat.toList_repr] at hc
  have hdigit := Nat.isDigit_of_mem_toDigits (by decide) (by decide) hc
  constructor
  · rintro rfl
    exact absurd hdigit (by decide)
  · rintro rfl
    exact absurd hdigit (by decide)

theorem text_plain (addr : InetAddress) : ∀ c ∈ addr.text.toList, Plain c := by
  have hopen : ∀ c ∈ "[".toList, Plain c := forall_mem_of_all (by decide)
  have hclose : ∀ c ∈ "]:".toList, Plain c := forall_mem_of_all (by decide)
  have hcolon : ∀ c ∈ ":".toList, Plain c := forall_mem_of_all (by decide)
  have haddr : ∀ c ∈ addrChars, Plain c := forall_mem_of_all (by decide)
  have hip : ∀ c ∈ addr.ip.toList, Plain c := fun c hc => haddr c (addr.ip_chars c hc)
  have hfamily : ∀ c ∈ (if addr.ipv6 then "[" ++ addr.ip ++ "]:" else addr.ip ++ ":").toList,
      Plain c := by
    split_ifs
    · rw [String.toList_append, String.toList_append, List.forall_mem_append,
        List.forall_mem_append]
      exact ⟨⟨hopen, hip⟩, hclose⟩
    · rw [String.toList_append, List.forall_mem_append]
      exact ⟨hip, hcolon⟩
  rw [text, String.toList_append, List.forall_mem_append]
  exact ⟨hfamily, port_plain addr.port⟩

end InetAddress

theorem cStr_of_noNul {s : String} (h : Char.ofNat 0 ∉ s.toList) : cStr s = s := by
  have hall : s.toList.takeWhile (· ≠ Char.ofNat 0) = s.toList := by
    rw [List.takeWhile_eq_self_iff]
    intro c hc
    exact decide_eq_true fun heq => h (heq ▸ hc)
  rw [cStr, hall, String.ofList_toList]

namespace TcpClient

/-- The buffer has no room for the ids, or not for all of their digits, and what is left of the
names is the same. -/
def Collide (a : String) (m : ℤ) (b : String) (n : ℤ) : Prop :=
  (30 ≤ a.length ∧ 30 ≤ b.length ∧ a.toList.take 30 = b.toList.take 30) ∨
    (a.length < 30 ∧ a = b ∧
      m.repr.toList.take (29 - a.length) = n.repr.toList.take (29 - a.length))

theorem conname_eq_iff (name : String) (a b : InetAddress) (m n : ℤ) :
    conname name a.text m = conname name b.text n ↔ Collide a.text m b.text n := by
  have hnul (addr : InetAddress) : cStr addr.text = addr.text :=
    cStr_of_noNul fun hin => (addr.text_plain _ hin).2 rfl
  have hhash (addr : InetAddress) : '#' ∉ addr.text.toList :=
    fun hin => (addr.text_plain _ hin).1 rfl
  have hlist (addr : InetAddress) (n : ℤ) : (":" ++ addr.text ++ "#" ++ n.repr).toList =
      ':' :: (addr.text.toList ++ '#' :: n.repr.toList) := by simp
  rw [conname, conname, hnul, hnul, String.append_right_inj, snprintf, snprintf, String.ofList_inj,
    hlist, hlist, List.take_succ_cons, List.take_succ_cons, List.cons.injEq, and_iff_right rfl,
    CString.take_cut_eq_iff (hhash a) (hhash b), String.length_toList, String.length_toList,
    String.toList_inj, Collide, show 32 - 1 - 1 - a.text.length - 1 = 29 - a.text.length by omega]

theorem step_ok (c : TcpClient) (peer : InetAddress) :
    c.step peer = .ok { c with
      nextConnId := incInt c.nextConnId
      connection := some (conname c.name peer.text c.nextConnId)
      connnames := c.connnames ++ [conname c.name peer.text c.nextConnId] } := by
  rw [step, newConnection, assertInLoopThread_ok rfl, ok_bind, InetAddress.toIpPort_ok, ok_bind]
  rfl

/-- The state after some calls: the ids count from 1. -/
structure Named (loop : LoopId) (name : String) (peers : List InetAddress) (c : TcpClient) : Prop where
  sameName : c.name = name
  next : peers.length < 2 ^ 31 - 1 → c.nextConnId = peers.length + 1
  connnames : c.connnames = peers.mapIdx fun i peer => conname name peer.text (i + 1 : ℕ)

variable {loop : LoopId} {name : String} {peers : List InetAddress}

theorem run_named (loop : LoopId) (name : String) (hfew : peers.length < 2 ^ 31) :
    ∃ c, run step (new loop name) peers = .ok c ∧ Named loop name peers c := by
  induction peers using List.reverseRecOn with
  | nil => exact ⟨_, rfl, rfl, fun _ => rfl, rfl⟩
  | append_singleton peers peer ih =>
    rw [List.length_append, List.length_singleton] at hfew
    obtain ⟨c, hc, hname, hnext, hnames⟩ := ih (by omega)
    have hid : c.nextConnId = (peers.length + 1 : ℕ) := hnext (by omega)
    refine ⟨_, (run_append hc [peer]).trans (run_cons (step_ok c peer) []), hname, fun hmore => ?_, ?_⟩
    · rw [List.length_append, List.length_singleton] at hmore ⊢
      simp only [hid, incInt]
      rw [if_neg (by omega)]
    · simp only
      rw [List.mapIdx_concat, hnames, hname, hid]

def NoneCollide (peers : List InetAddress) : Prop := ∀ i j : ℕ, ∀ a b, i < j →
  peers[i]? = some a → peers[j]? = some b → ¬ Collide a.text (i + 1 : ℕ) b.text (j + 1 : ℕ)

/-- The names differ as long as the part of each text and id that fits the buffer does. -/
theorem names_distinct_iff (hfew : peers.length < 2 ^ 31) :
    ∃ c, run step (new loop name) peers = .ok c ∧ (c.connnames.Nodup ↔ NoneCollide peers) := by
  obtain ⟨c, hc, -, -, hnames⟩ := run_named loop name hfew
  refine ⟨c, hc, ?_⟩
  rw [hnames, List.Nodup, List.pairwise_iff_getElem]
  simp only [List.length_mapIdx, List.getElem_mapIdx, Ne, conname_eq_iff]
  constructor
  · intro hdistinct i j a b hij ha hb
    obtain ⟨hi, rfl⟩ := List.getElem?_eq_some_iff.1 ha
    obtain ⟨hj, rfl⟩ := List.getElem?_eq_some_iff.1 hb
    exact hdistinct i j hi hj hij
  · intro hnone i j hi hj hij
    exact hnone i j _ _ hij (List.getElem?_eq_getElem hi) (List.getElem?_eq_getElem hj)

/-- 127.0.0.1:80 -/
def loopback : InetAddress := ⟨false, "127.0.0.1", 80, by decide, forall_mem_of_all (by decide)⟩

/-- [2001:db8:1111:2222:3333:4444:5555:6666]:80 -/
def documentation : InetAddress :=
  ⟨true, "2001:db8:1111:2222:3333:4444:5555:6666", 80, by decide,
    forall_mem_of_all (by decide)⟩

/-- Three connections to one server. -/
theorem names_distinct_three : ∃ c, run step (new baseLoop "client") [loopback, loopback, loopback] =
    .ok c ∧ (c.connnames.Nodup ↔ NoneCollide [loopback, loopback, loopback]) :=
  names_distinct_iff (by decide)

/-- A server whose text alone fills the buffer. -/
theorem names_repeat : ∃ c, run step (new baseLoop "client") [documentation, documentation] = .ok c ∧
    ¬ c.connnames.Nodup := by
  obtain ⟨c, hc, -, -, hnames⟩ := run_named baseLoop "client"
    (show [documentation, documentation].length < 2 ^ 31 by decide)
  have hlong : 30 ≤ documentation.text.length := by
    rw [InetAddress.text, String.length_append]
    exact Nat.le_add_right_of_le (by decide)
  have hsame : conname "client" documentation.text (0 + 1 : ℕ) =
      conname "client" documentation.text (1 + 1 : ℕ) :=
    (conname_eq_iff _ _ _ _ _).2 (.inl ⟨hlong, hlong, rfl⟩)
  refine ⟨c, hc, ?_⟩
  rw [hnames, List.mapIdx_cons, List.mapIdx_cons, List.mapIdx_nil, hsame]
  simp

end TcpClient

end Czy.Net
