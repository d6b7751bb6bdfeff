import Czy.Lib.Run
import Czy.Sanity.Lifecycle

/-! The end of a connection, over all that its loop, its user and its server can do
with it in any order. -/

namespace Czy.Net

open StepRun TcpConnection

namespace TcpConnection

/-- `state_` moves forward only; the close callback and the DOWN report run at most
once. -/
structure ClosesOnce (es : List Effect) : Prop where
  forward : ∃ last, Advances .KConnecting (stateSets es) last
  closes : es.count .closeCallback ≤ 1
  downs : es.count (.connectionCallback false) ≤ 1

theorem ClosesOnce.of_append {es es' : List Effect} (h : ClosesOnce (es ++ es')) : ClosesOnce es := by
  obtain ⟨⟨last, hadv⟩, hcl, hdn⟩ := h
  rw [stateSets_append] at hadv
  obtain ⟨b, hb, -⟩ := hadv.split
  rw [List.count_append] at hcl hdn
  exact ⟨⟨b, hb⟩, by omega, by omega⟩

def Dispatch.hup (d : Dispatch) : Bool := d.revents.test POLLHUP && !d.revents.test POLLIN

def Dispatch.eof (d : Dispatch) : Bool :=
  d.revents.test (POLLIN ||| POLLPRI ||| POLLRDHUP) && isEof d.read

def closings (c : TcpConnection) (d : Dispatch) : ℕ :=
  if !c.channel.tied || d.alive then d.hup.toNat + d.eof.toNat else 0

/-- A dispatch asks for one `handleClose` at most, and for none on a disconnected
connection; `connectEstablished` finds the connection new. -/
def Single (c : TcpConnection) : ConnOp → Prop
  | .connectEstablished => c.state = .KConnecting
  | .handleEvent d => c.closings d ≤ 1 ∧ (0 < c.closings d → c.state ≠ .KDisconnected)
  | _ => True

instance (c : TcpConnection) (o : ConnOp) : Decidable (c.Single o) :=
  match o with
  | .connectEstablished => inferInstanceAs (Decidable (_ = _))
  | .handleEvent _ => inferInstanceAs (Decidable (_ ∧ _))
  | .call _ _ | .runPending _ _ | .timerExpired _ | .connectDestory _ => .isTrue trivial

variable {c c' : TcpConnection}

theorem callIf_moves {b : Bool} {f : TcpConnection → Except Fault TcpConnection} {k : ℕ}
    (hf : f c = .ok c' → Moves k k c c') (h : Channel.callIf b (some f) c = .ok c') :
    Moves (b.toNat * k) (b.toNat * k) c c' := by
  cases b with
  | true =>
    rw [Bool.toNat_true, Nat.one_mul]
    exact hf h
  | false =>
    cases h
    rw [Bool.toNat_false, Nat.zero_mul]
    exact .refl c

theorem dispatch_moves {d : Dispatch} (hr : c.channel.revents = d.revents)
    (h : Channel.handleEventWithGuard holder (callbacks d) c = .ok c') :
    Moves (d.hup.toNat + d.eof.toNat) (d.hup.toNat + d.eof.toNat) c c' := by
  obtain ⟨c₁, hclose, h⟩ := bind_ok.1 h
  obtain ⟨c₂, herror, h⟩ := bind_ok.1 h
  obtain ⟨c₃, hread, h⟩ := bind_ok.1 h
  obtain ⟨c₄, hwrite, h⟩ := bind_ok.1 h
  cases h
  have h₀ : Moves 0 0 c { c with channel := { c.channel with eventHandling := true } } :=
    .plain [] rfl (List.append_nil _).symm (by simp) rfl id
  have h₁ := h₀.trans (callIf_moves handleClose_moves hclose)
  have h₂ := h₁.trans (callIf_moves (k := 0) (fun hc => by cases hc; exact .refl _) herror)
  have h₃ := h₂.trans (callIf_moves handleRead_moves hread)
  have h₄ := h₃.trans (callIf_moves handleWrite_moves hwrite)
  have h₅ : Moves _ _ c { c₄ with channel := { c₄.channel with eventHandling := false } } :=
    h₄.trans (.plain [] rfl (List.append_nil _).symm (by simp) rfl id)
  have hhup : ((c.channel.revents.test POLLHUP) && !(c.channel.revents.test POLLIN)) = d.hup := by
    rw [hr]
    rfl
  have heof : ((c₂.channel.revents.test (POLLIN ||| POLLPRI ||| POLLRDHUP))).toNat *
      (isEof d.read).toNat = d.eof.toNat := by
    rw [h₂.revents, hr, Dispatch.eof]
    cases d.revents.test (POLLIN ||| POLLPRI ||| POLLRDHUP) <;> simp
  simpa [holder, hhup, heof] using h₅

theorem handleEvent_moves {d : Dispatch} (h : c.handleEvent d = .ok c') :
    Moves (c.closings d) (c.closings d) { c with channel := c.channel.setRevents d.revents } c' := by
  unfold handleEvent Channel.handleEvent at h
  have htied : (holder.get { c with channel := c.channel.setRevents d.revents }).tied =
      c.channel.tied := rfl
  rw [htied] at h
  unfold closings
  cases hc : c.channel.tied with
  | false =>
    rw [hc, if_neg (by decide)] at h
    rw [if_pos (by rfl)]
    exact dispatch_moves rfl h
  | true =>
    rw [hc, if_pos rfl] at h
    cases ha : d.alive with
    | false =>
      rw [ha, if_neg (by decide)] at h
      cases h
      exact .refl _
    | true =>
      rw [ha, if_pos rfl] at h
      exact dispatch_moves rfl h

/-- Every operation but a `connectEstablished` out of place moves the connection on;
`Single` says when it closes it no more than it should. -/
theorem step_moves {o : ConnOp} (h : o.step c = .ok c')
    (hest : o = .connectEstablished → c.state = .KConnecting) :
    ∃ m n c₀, c₀.effects = c.effects ∧ c₀.state = c.state ∧ c₀.channel.isWriting = c.channel.isWriting ∧
      m ≤ n ∧ Moves m n c₀ c' ∧ (c.Single o ↔ n ≤ 1 ∧ (0 < n → c.state ≠ .KDisconnected)) := by
  cases o with
  | connectEstablished =>
    obtain ⟨-, h⟩ := require_bind_ok.1 h
    cases h
    have hs := hest rfl
    refine ⟨0, 0, c, rfl, rfl, rfl, le_rfl, ⟨⟨[.setState .KConnecting, .setState .KConnected], ?_,
      rfl, rfl, by simp, ?_⟩, ?_, rfl, id⟩, by simp [Single, hs]⟩
    · simp [setState, emit]
    · rw [hs]
      exact ⟨le_rfl, by decide, rfl⟩
    · simp [setState, hs]
  | handleEvent d =>
    exact ⟨_, _, { c with channel := c.channel.setRevents d.revents }, rfl, rfl, rfl, le_rfl,
      handleEvent_moves h, Iff.rfl⟩
  | call inLoop u => exact ⟨0, 0, c, rfl, rfl, rfl, le_rfl, call_moves h, by simp [Single]⟩
  | runPending w calls =>
    obtain ⟨k, hk, ho, hm⟩ := runPending_moves h
    exact ⟨k, k, c, rfl, rfl, rfl, le_rfl, hm, iff_of_true trivial ⟨hk, fun hp =>
      (ho hp).ne_disconnected⟩⟩
  | timerExpired alive =>
    cases h
    exact ⟨0, 0, c, rfl, rfl, rfl, le_rfl, timerExpired_moves c alive, by simp [Single]⟩
  | connectDestory calls =>
    refine ⟨0, _, c, rfl, rfl, rfl, Nat.zero_le _, connectDestory_moves h, iff_of_true trivial ?_⟩
    split_ifs with hc
    · exact ⟨le_rfl, fun _ => by rw [hc]; decide⟩
    · exact ⟨Nat.zero_le _, fun hp => absurd hp (by decide)⟩

theorem step_effects {o : ConnOp} (h : o.step c = .ok c') : ∃ es, c'.effects = c.effects ++ es := by
  by_cases hest : o = .connectEstablished → c.state = .KConnecting
  · obtain ⟨_, _, c₀, he, -, -, -, hm, -⟩ := step_moves h hest
    obtain ⟨es, hes, -⟩ := hm.trace
    exact ⟨es, by rw [hes, he]⟩
  · obtain ⟨rfl, -⟩ := Classical.not_imp.1 hest
    obtain ⟨-, h⟩ := require_bind_ok.1 h
    cases h
    exact ⟨[.setState .KConnecting, .setState .KConnected], by simp [setState, emit]⟩

/-- What the effects so far say of a connection whose steps were single. -/
structure Tidy (c : TcpConnection) : Prop where
  path : Advances .KConnecting (stateSets c.effects) c.state
  closes : c.effects.count .closeCallback ≤ c.effects.count (.connectionCallback false)
  downs : c.effects.count (.connectionCallback false) = if c.state = .KDisconnected then 1 else 0

theorem Tidy.closesOnce (h : Tidy c) : ClosesOnce c.effects := by
  have hdn := h.downs
  have hcl := h.closes
  refine ⟨⟨_, h.path⟩, ?_, ?_⟩ <;> split_ifs at hdn <;> omega

theorem Moves.tidy {m n : ℕ} {c₀ : TcpConnection} (h : Tidy c) (he : c₀.effects = c.effects)
    (hs : c₀.state = c.state) (hmn : m ≤ n) (hm : Moves m n c₀ c')
    (hn : n ≤ 1 ∧ (0 < n → c.state ≠ .KDisconnected)) : Tidy c' := by
  obtain ⟨es, hes, hcl, hdn, -, hadv⟩ := hm.trace
  have hdown := hm.down
  rw [he] at hes
  rw [hs] at hadv hdown
  have hd := h.downs
  have hc := h.closes
  refine ⟨?_, ?_, ?_⟩
  · rw [hes, stateSets_append]
    exact h.path.append hadv
  · rw [hes, List.count_append, List.count_append, hcl, hdn]
    omega
  · rw [hes, List.count_append, hdn, hd]
    by_cases hst : c.state = .KDisconnected
    · rw [if_pos hst, if_pos (hdown.2 (Or.inl hst))]
      have hzero : ¬ 0 < n := fun hp => hn.2 hp hst
      omega
    · rw [if_neg hst]
      split_ifs with hst'
      · have := (hdown.1 hst').resolve_left hst
        omega
      · have := mt (fun hp => hdown.2 (Or.inr hp)) hst'
        omega

theorem Moves.single_of_closesOnce {m n : ℕ} {c₀ : TcpConnection} (h : Tidy c)
    (he : c₀.effects = c.effects) (hm : Moves m n c₀ c') (ho : ClosesOnce c'.effects) :
    n ≤ 1 ∧ (0 < n → c.state ≠ .KDisconnected) := by
  obtain ⟨es, hes, -, hdn, -, -⟩ := hm.trace
  have hcount := ho.downs
  rw [hes, he, List.count_append, hdn, h.downs] at hcount
  split_ifs at hcount with hst
  · exact ⟨by omega, by omega⟩
  · exact ⟨by omega, fun _ => hst⟩

/-- A `connectEstablished` of a connection that is not new sets the state back. -/
theorem connectEstablished_closesOnce (h : Tidy c) (hs : c.connectEstablished = .ok c')
    (ho : ClosesOnce c'.effects) : c.state = .KConnecting := by
  obtain ⟨-, hs⟩ := require_bind_ok.1 hs
  cases hs
  obtain ⟨last, hadv⟩ := ho.forward
  have heff : ((c.setState .KConnecting).setState .KConnected).effects =
      c.effects ++ [Effect.setState .KConnecting, .setState .KConnected] := by
    simp [setState, emit]
  change Advances _ (stateSets ((c.setState .KConnecting).setState .KConnected).effects) _ at hadv
  rw [heff, stateSets_append] at hadv
  obtain ⟨b, hb, hback⟩ := hadv.split
  rw [hb.last_unique h.path] at hback
  have hrank : c.state.rank ≤ 0 := hback.1
  cases hst : c.state <;> simp_all [StateE.rank]

end TcpConnection

theorem new_tidy (sockfd : ℕ) : Tidy (TcpConnection.new sockfd) := ⟨rfl, le_rfl, rfl⟩

/-- Over any run of a new connection, it closes once exactly when no dispatch asks
for a second `handleClose` and `connectEstablished` comes first. -/
theorem closes_once_iff (sockfd : ℕ) (ops : List ConnOp) (c : TcpConnection)
    (hrun : run ConnOp.step (TcpConnection.new sockfd) ops = .ok c) :
    ClosesOnce c.effects ↔ Along ConnOp.step Single (TcpConnection.new sockfd) ops := by
  have hsingle : ∀ {c c' : TcpConnection} {o : ConnOp}, Tidy c → o.step c = .ok c' →
      ClosesOnce c'.effects → c.Single o := by
    intro c c' o h hs ho
    have hest : o = .connectEstablished → c.state = .KConnecting := fun he => by
      subst he
      exact connectEstablished_closesOnce h hs ho
    obtain ⟨m, n, c₀, he, -, -, -, hm, hiff⟩ := step_moves hs hest
    exact hiff.2 (hm.single_of_closesOnce h he ho)
  have htidy : ∀ {c c' : TcpConnection} {o : ConnOp}, Tidy c → o.step c = .ok c' → c.Single o →
      Tidy c' := by
    intro c c' o h hs hc
    have hest : o = .connectEstablished → c.state = .KConnecting := fun he => by
      subst he
      exact hc
    obtain ⟨m, n, c₀, he, hst, -, hmn, hm, hiff⟩ := step_moves hs hest
    exact hm.tidy h he hst hmn (hiff.1 hc)
  refine last_iff_along (I := Tidy) (Q := fun c => ClosesOnce c.effects) (fun c h => h.closesOnce)
    (fun c o c' hs ho => ?_) (fun c o c' h hs => ⟨hsingle h hs, fun hc => (htidy h hs hc).closesOnce⟩)
    (fun c o c' h hs ho => htidy h hs (hsingle h hs ho)) (new_tidy sockfd) hrun
  obtain ⟨es, hes⟩ := step_effects hs
  rw [hes] at ho
  exact ho.of_append

theorem closes_once_shutdown :
    ∃ c, run ConnOp.step (TcpConnection.new 5) [.connectEstablished, .call true .shutdown,
      .handleEvent ⟨POLLHUP, true, .ok [], .ok 0, [], []⟩] = .ok c ∧ ClosesOnce c.effects := by
  obtain ⟨c, hs, -⟩ := ok_of_toOption_map
    (x := run ConnOp.step (TcpConnection.new 5) [.connectEstablished, .call true .shutdown,
      .handleEvent ⟨POLLHUP, true, .ok [], .ok 0, [], []⟩])
    (f := fun c => c.state) (a := .KDisconnected) (by decide +kernel)
  exact ⟨c, hs, (closes_once_iff 5 _ c hs).2 (by decide +kernel)⟩

/-- One dispatch of POLLHUP and POLLRDHUP, with a read that ends the stream, closes
the connection twice. -/
theorem dispatch_closes_twice :
    ∃ c, run ConnOp.step (TcpConnection.new 5) [.connectEstablished,
      .handleEvent ⟨POLLHUP ||| POLLRDHUP, true, .ok [], .ok 0, [], []⟩] = .ok c ∧
      ¬ ClosesOnce c.effects := by
  obtain ⟨c, hs, htwice⟩ := ok_of_toOption_map
    (x := run ConnOp.step (TcpConnection.new 5) [.connectEstablished,
      .handleEvent ⟨POLLHUP ||| POLLRDHUP, true, .ok [], .ok 0, [], []⟩])
    (f := fun c => c.effects.count .closeCallback) (a := 2) (by decide +kernel)
  refine ⟨c, hs, fun ho => ?_⟩
  have hcount := ho.closes
  omega

end Czy.Net
