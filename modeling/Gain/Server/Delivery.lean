import Gain.Server.HandOff
import Gain.Worker.Ownership

/-! # Every connection is handed over once

In a careful run every accepted connection reaches one consumer, once and with its own
address, or is disposed of by the acceptor. There is never more than one accept, so the
address the kernel stored last is that of the connection at hand; the descriptors under
way are all different, so no address is taken for another.
-/

namespace Gain

open Function List Option

namespace Acceptor

variable {n : Nat} {a a' : Acceptor n} {c : AcceptorCqe n} {cq : List (AcceptorCqe n)}

theorem accepts_nil (none' : cq.countP (fun c => c.sqe = .accept) = 0) :
    cq.filterMap AcceptorCqe.accepted? = [] := by
  rw [filterMap_eq_nil_iff]
  intro c member
  have other : c.sqe ≠ .accept := by simpa using countP_eq_zero.mp none' c member
  rw [AcceptorCqe.accepted?, if_neg fun accepted => other accepted.1]

theorem messages_prepared (a : Acceptor n) (q : AcceptorSqe n) (i : Fin n) :
    ({ a with sq := a.sq ++ [q] } : Acceptor n).messages i =
      a.messages i ++ (q.message? i).toList := by
  simp only [messages, ← append_assoc, filterMap_append]
  cases message : q.message? i with
  | none => rw [filterMap_cons_none message]; rfl
  | some fd => rw [filterMap_cons_some message]; rfl

/-- The same requests are prepared or submitted. -/
theorem messages_of_requests (same : a'.inflight ++ a'.sq = a.inflight ++ a.sq) (i : Fin n) :
    a'.messages i = a.messages i := by
  rw [messages, messages, same]

section Completed

variable {i : Nat} {q : AcceptorSqe n} {x : Int}

theorem completed_requests (found : a.inflight[i]? = some q) :
    (a.inflight ++ a.sq).Perm (q :: ((a.completed i q x).inflight ++ (a.completed i q x).sq)) := by
  obtain ⟨lt, same⟩ := List.getElem?_eq_some_iff.mp found
  have perm := (List.getElem_cons_eraseIdx_perm lt).symm.append_right a.sq
  rw [same] at perm
  exact perm

theorem completed_messages (found : a.inflight[i]? = some q) (j : Fin n) :
    (a.messages j).Perm ((q.message? j).toList ++ (a.completed i q x).messages j) := by
  refine ((completed_requests (x := x) found).filterMap _).trans ?_
  cases message : q.message? j with
  | none => rw [filterMap_cons_none message]; exact .refl _
  | some fd => rw [filterMap_cons_some message]; exact .refl _

theorem completed_accepts : (a.completed i q x).accepts =
    a.accepts ++ (AcceptorCqe.accepted? ⟨q, x⟩).toList := by
  rw [accepts, completed, filterMap_append]
  cases accepted : AcceptorCqe.accepted? (⟨q, x⟩ : AcceptorCqe n) with
  | none => rw [filterMap_cons_none accepted]; rfl
  | some fd => rw [filterMap_cons_some accepted]; rfl

theorem completed_asked (found : a.inflight[i]? = some q) :
    (a.completed i q x).asked = a.asked := by
  have requests := (completed_requests (x := x) found).countP_eq (fun q => q = .accept)
  have completions : (a.completed i q x).cq.countP (fun c => c.sqe = .accept) =
      a.cq.countP (fun c => c.sqe = .accept) + if decide (q = .accept) then 1 else 0 := by
    rw [completed, countP_append, countP_singleton]
  rw [countP_cons] at requests
  rw [asked, asked, requests, completions]
  omega

end Completed

end Acceptor

namespace Reactor

variable {n : Nat} {r r' : Reactor n} {i : Fin n} {fd : Int} {peer : Option NetAddr}

theorem Uniform.of_cfg (uniform : r.Uniform) (cfg : ∀ i, (r'.consumers i).cfg = (r.consumers i).cfg)
    (rings : r'.acceptor.ringsMessaging = r.acceptor.ringsMessaging) : r'.Uniform where
  kind := fun i => by rw [cfg i]; exact uniform.kind i
  tcp := fun i => by rw [cfg i]; exact uniform.tcp i
  features := fun i => by rw [cfg i, rings]; exact uniform.features i

/-- The letters to a consumer whose box is the same keep their addresses. -/
theorem Sound.known_of_same (sound : r.Sound) (same : Parcels.Same r.parcels r'.parcels (some i)) :
    ∀ fd ∈ r'.letters i, ((r'.consumers i).socketAddresses.lookup fd).isSome = true := by
  intro fd member
  have before : fd ∈ r.letters i := same.box.mem_iff.mp member
  have tag : (r'.consumers i).socketAddresses.lookup fd =
    (r.consumers i).socketAddresses.lookup fd := same.tag fd before
  rw [tag]
  exact sound.known i fd before

theorem letters_nil_of_same (same : Parcels.Same r.parcels r'.parcels (some i))
    (none' : r.letters i = []) : r'.letters i = [] := by
  have perm : (r'.letters i).Perm (r.letters i) := same.box
  rw [none'] at perm
  exact perm.eq_nil

theorem same_of_eq (messages : r'.acceptor.messages i = r.acceptor.messages i)
    (consumer : r'.consumers i = r.consumers i) : Parcels.Same r.parcels r'.parcels (some i) where
  box := by
    change (r'.letters i).Perm (r.letters i)
    rw [letters, letters, messages, consumer]
  tag := fun fd _ => by
    change (r'.consumers i).socketAddresses.lookup fd = _
    rw [consumer]
    rfl

/-- No descriptor has moved. -/
theorem Sound.of_same (sound : r.Sound) (same : ∀ b, Parcels.Same r.parcels r'.parcels b)
    (accepted : r'.accepted = r.accepted) (disposed : r'.disposed = r.disposed)
    (handled : r'.handled = r.handled) (opened : ∀ fd, r.Underway fd → fd ∈ r'.openFds)
    (asked : r'.acceptor.asked ≤ 1) (stopped : r'.acceptor.phase = .stopped → r'.acceptor.Clear)
    (gone : ∀ i, (r'.consumers i).phase = .stopped → r.letters i = [])
    (uniform : r'.Uniform) : r'.Sound where
  account := by
    rw [accepted, disposed, handled, Parcels.content_same same]
    exact sound.account
  apart := sound.apart.same same
  stopped := stopped
  gone := fun i ended => letters_nil_of_same (same (some i)) (gone i ended)
  opened := fun fd ⟨b, member⟩ => opened fd ⟨b, (same b).box.mem_iff.mp member⟩
  valid := fun fd ⟨b, member⟩ => sound.valid fd ⟨b, (same b).box.mem_iff.mp member⟩
  known := fun i => sound.known_of_same (same (some i))
  asked := asked
  uniform := uniform

/-- Only the acceptor has changed, and not in what is under way. -/
theorem Sound.of_acceptor (sound : r.Sound) {a : Acceptor n}
    (accepts : a.accepts = r.acceptor.accepts) (clientAddr : a.clientAddr = r.acceptor.clientAddr)
    (messages : ∀ i, a.messages i = r.acceptor.messages i) (asked : a.asked ≤ 1)
    (stopped : a.phase = .stopped → a.Clear)
    (rings : a.ringsMessaging = r.acceptor.ringsMessaging) : { r with acceptor := a }.Sound := by
  refine sound.of_same ?_ rfl rfl rfl sound.opened asked stopped sound.gone
    (sound.uniform.of_cfg (fun _ => rfl) rings)
  rintro (_ | i)
  · refine ⟨?_, fun _ _ => clientAddr⟩
    change a.accepts.Perm r.acceptor.accepts
    rw [accepts]
  · exact same_of_eq (messages i) rfl

/-! ## The acceptor's loop -/

/-- The acceptor goes round. -/
theorem Sound.turn (sound : r.Sound) {entries : Nat} {result : Submit}
    (careful : r.Careful (.turn entries result)) (done : r.step (.turn entries result) = some r') :
    r'.Sound := by
  have queue : ∀ {a : Acceptor n}, a.inflight ++ a.sq = r.acceptor.inflight ++ r.acceptor.sq →
      a.cq = r.acceptor.cq → a.asked ≤ 1 := by
    intro a requests completions
    rw [Acceptor.asked, requests, completions]
    exact sound.asked
  have moved : r.acceptor.inflight ++ r.acceptor.sq.take entries ++ r.acceptor.sq.drop entries =
      r.acceptor.inflight ++ r.acceptor.sq := by
    rw [append_assoc, take_append_drop]
  simp only [step] at done
  split_ifs at done with top needed
  · have clear := careful (Or.inl needed)
    cases done
    refine sound.of_same ?_ rfl rfl rfl sound.opened sound.asked (fun _ => ?_) sound.gone
      (sound.uniform.of_cfg (fun _ => rfl) rfl)
    · rintro (_ | i) <;> exact ⟨.refl _, fun _ _ => rfl⟩
    · exact ⟨clear.accepts, clear.messages⟩
  · cases result with
    | done =>
      cases done
      refine sound.of_acceptor rfl rfl (Acceptor.messages_of_requests moved) (queue moved rfl)
        (fun stopped => ?_) rfl
      cases stopped
    | skippable =>
      cases done
      refine sound.of_acceptor rfl rfl (Acceptor.messages_of_requests moved) (queue moved rfl)
        (fun stopped => ?_) rfl
      cases top.symm.trans stopped
    | failed =>
      have clear := careful (Or.inr rfl)
      cases done
      refine sound.of_acceptor rfl rfl (Acceptor.messages_of_requests moved) (queue moved rfl)
        (fun _ => ?_) rfl
      refine ⟨clear.accepts, fun i => ?_⟩
      rw [← clear.messages i]
      exact Acceptor.messages_of_requests moved i

/-- The accepted connection at hand leaves the acceptor's queue, and the others stay. -/
structure Answered (fd : Int) (r r' : Reactor n) : Prop where
  before : r.acceptor.accepts = [fd]
  after : r'.acceptor.accepts = []
  accepted : r'.accepted = r.accepted
  handled : r'.handled = r.handled
  openFds : r'.openFds = r.openFds
  asked : r'.acceptor.asked ≤ 1
  running : r'.acceptor.phase ≠ .stopped
  phase : ∀ i, (r'.consumers i).phase = (r.consumers i).phase
  uniform : r'.Uniform

/-- The acceptor disposes of the connection. -/
theorem Sound.disposed (sound : r.Sound) (answered : Answered fd r r')
    (letters : ∀ i, Parcels.Same r.parcels r'.parcels (some i))
    (disposed : r'.disposed = r.disposed ++ [(fd, r.acceptor.clientAddr)]) : r'.Sound := by
  have removed : Parcels.Added fd r'.parcels r.parcels none := by
    refine ⟨?_, ?_⟩
    · change r.acceptor.accepts.Perm (fd :: r'.acceptor.accepts)
      rw [answered.before, answered.after]
    · change ∀ l ∈ r'.acceptor.accepts, _
      rw [answered.after]
      exact forall_mem_nil _
  have others : ∀ b ≠ none, Parcels.Same r.parcels r'.parcels b := by
    rintro (_ | i) other
    · exact absurd rfl other
    · exact letters i
  have sub : ∀ fd', r'.Underway fd' → r.Underway fd' := by
    rintro fd' ⟨_ | i, member⟩
    · change fd' ∈ r'.acceptor.accepts at member
      rw [answered.after] at member
      cases member
    · exact ⟨some i, (letters i).box.mem_iff.mp member⟩
  refine ⟨⟨?_, (sound.apart.removed removed others).1, ?_, ?_⟩, ?_,
    fun fd' under => sound.valid fd' (sub fd' under), fun i => sound.known_of_same (letters i),
    answered.asked, answered.uniform⟩
  · have account := sound.account
    rw [Parcels.content_removed removed others] at account
    rw [answered.accepted, answered.handled, disposed, ← Multiset.coe_add, account]
    simp only [add_assoc]
    rfl
  · exact fun stopped => absurd stopped answered.running
  · intro i ended
    rw [answered.phase i] at ended
    exact letters_nil_of_same (letters i) (sound.gone i ended)
  · rw [answered.openFds]
    exact fun fd' under => sound.opened fd' (sub fd' under)

/-- The address of the connection at hand does not hide that of a letter. -/
theorem Sound.lookup_insert (sound : r.Sound) (here : fd ∈ r.acceptor.accepts) (addr : NetAddr)
    {l : Int} (letter : l ∈ r.letters i) :
    ((r.consumers i).socketAddresses.insert fd addr).lookup l =
      (r.consumers i).socketAddresses.lookup l := by
  have other : l ≠ fd := by
    rintro rfl
    have boxed : l ∈ r.parcels.box none := here
    cases sound.apart.alone boxed (show l ∈ r.parcels.box (some i) from letter)
  rw [AList.lookup_insert_ne other]

/-- The connection is on its way to a consumer that runs. -/
theorem Sound.forwarded (sound : r.Sound) (answered : Answered fd r r') {addr : NetAddr}
    (peer : r.acceptor.clientAddr = some addr) (running : (r.consumers i).phase ≠ .stopped)
    (letter : (r'.letters i).Perm (fd :: r.letters i))
    (addresses : (r'.consumers i).socketAddresses = (r.consumers i).socketAddresses.insert fd addr)
    (others : ∀ j ≠ i, Parcels.Same r.parcels r'.parcels (some j))
    (disposed : r'.disposed = r.disposed) : r'.Sound := by
  have here : fd ∈ r.parcels.box none := by
    change fd ∈ r.acceptor.accepts
    rw [answered.before]
    exact mem_cons_self
  have gone : r'.parcels.box none = [] := answered.after
  have stored : (r'.consumers i).socketAddresses.lookup fd = some addr := by
    rw [addresses, AList.lookup_insert]
  have kept : ∀ l ∈ r.letters i, (r'.consumers i).socketAddresses.lookup l =
      (r.consumers i).socketAddresses.lookup l := by
    intro l member
    rw [addresses]
    exact sound.lookup_insert here addr member
  have added : Parcels.Added fd r.parcels r'.parcels (some i) := ⟨letter, kept⟩
  have rest : ∀ b, b ≠ none → b ≠ some i → Parcels.Same r.parcels r'.parcels b := by
    rintro (_ | j) other other'
    · exact absurd rfl other
    · exact others j fun same => other' (congrArg some same)
  obtain ⟨apart, content⟩ := Parcels.moved sound.apart (some_ne_none i)
    (by rw [gone]; exact answered.before ▸ .refl _) (by rw [gone]; exact forall_mem_nil _)
    added rest (stored.trans peer.symm)
  have under : ∀ fd', r'.Underway fd' → r.Underway fd' := by
    rintro fd' ⟨_ | j, member⟩
    · rw [gone] at member
      cases member
    · by_cases same : j = i
      · subst same
        rcases mem_cons.mp (letter.mem_iff.mp member) with rfl | old
        · exact ⟨none, here⟩
        · exact ⟨some j, old⟩
      · exact ⟨some j, (others j same).box.mem_iff.mp member⟩
  refine ⟨⟨?_, apart, ?_, ?_⟩, ?_, fun fd' member => sound.valid fd' (under fd' member), ?_,
    answered.asked, answered.uniform⟩
  · rw [answered.accepted, answered.handled, disposed, content]
    exact sound.account
  · exact fun stopped => absurd stopped answered.running
  · intro j ended
    rw [answered.phase j] at ended
    by_cases same : j = i
    · subst same
      exact absurd ended running
    · exact letters_nil_of_same (others j same) (sound.gone j ended)
  · rw [answered.openFds]
    exact fun fd' member => sound.opened fd' (under fd' member)
  · intro j fd' member
    by_cases same : j = i
    · subst same
      rcases mem_cons.mp (letter.mem_iff.mp member) with rfl | old
      · rw [stored]
        rfl
      · rw [kept fd' old]
        exact sound.known j fd' old
    · exact sound.known_of_same (others j same) fd' member

/-- The acceptor has asked for the next connection. -/
structure Renewed (r : Reactor n) (a : Acceptor n) : Prop where
  after : a.accepts = []
  messages : ∀ i, a.messages i = r.acceptor.messages i
  asked : a.asked ≤ 1
  running : a.phase ≠ .stopped
  clientAddr : a.clientAddr = r.acceptor.clientAddr
  rings : a.ringsMessaging = r.acceptor.ringsMessaging

/-- The acceptor has asked for the next connection, and has one at hand. -/
structure Asking (fd : Int) (r : Reactor n) (a : Acceptor n) : Prop extends Renewed r a where
  before : r.acceptor.accepts = [fd]

/-- Whatever the acceptor does to its consumers with the connection at hand, they keep their
configuration and phase. -/
theorem Asking.answered (sound : r.Sound) {a : Acceptor n} (asking : Asking fd r a)
    (accepts : r'.acceptor.accepts = a.accepts) (asked : r'.acceptor.asked = a.asked)
    (phase : r'.acceptor.phase = a.phase) (rings : r'.acceptor.ringsMessaging = a.ringsMessaging)
    (accepted : r'.accepted = r.accepted) (handled : r'.handled = r.handled)
    (openFds : r'.openFds = r.openFds) (cfg : ∀ i, (r'.consumers i).cfg = (r.consumers i).cfg)
    (phases : ∀ i, (r'.consumers i).phase = (r.consumers i).phase) : Answered fd r r' where
  before := asking.before
  after := accepts.trans asking.after
  accepted := accepted
  handled := handled
  openFds := openFds
  asked := asked ▸ asking.asked
  running := phase ▸ asking.running
  phase := phases
  uniform := sound.uniform.of_cfg cfg (rings.trans asking.rings)

/-- What a change of one consumer leaves as it is, it leaves for all of them. -/
theorem update_eq {α : Type} (read : Worker → α) {w : Worker} (same : read w = read (r.consumers i))
    (j : Fin n) : read (update r.consumers i w j) = read (r.consumers j) := by
  by_cases here : j = i
  · subst here
    rw [update_self, same]
  · rw [update_of_ne here]

theorem addConnMethod_ring (rings : r.acceptor.ringsMessaging = true) (sqe : Bool) :
    r.addConnMethod sqe i fd = ((r.acceptor.addConnViaRing sqe i fd).1,
      { r with acceptor := (r.acceptor.addConnViaRing sqe i fd).2 }) := by
  rw [addConnMethod, if_pos rings]

theorem addConnMethod_queue (rings : r.acceptor.ringsMessaging = false) (sqe : Bool) :
    r.addConnMethod sqe i fd = r.addConnViaQueue i fd := by
  rw [addConnMethod, if_neg (ne_true_of_eq_false rings)]

section Forward

variable {a : Acceptor n} {addr : NetAddr}

/-- The address is stored and no entry is found for the message. -/
theorem Sound.refused (sound : r.Sound) (asking : Asking fd r a) (addr : NetAddr) :
    (({ r with acceptor := a }.setConsumer i
      ((r.consumers i).setSocketAddr fd addr)).dispose fd).Sound := by
  have here : fd ∈ r.acceptor.accepts := asking.before ▸ mem_cons_self
  refine sound.disposed (asking.answered sound rfl rfl rfl rfl rfl rfl rfl
    (update_eq Worker.cfg rfl) (update_eq Worker.phase rfl)) ?_ ?_
  · intro j
    by_cases same : j = i
    · subst same
      refine ⟨?_, fun l letter => ?_⟩
      · change (a.messages j ++ (update r.consumers j _ j).waiting).Perm (r.letters j)
        rw [asking.messages, update_self]
        exact .refl _
      · change (update r.consumers j _ j).socketAddresses.lookup l = _
        rw [update_self]
        exact sound.lookup_insert here addr letter
    · exact same_of_eq (asking.messages j) (update_of_ne same ..)
  · change r.disposed ++ [(fd, a.clientAddr)] = _
    rw [asking.clientAddr]

/-- A message to the consumer is prepared. -/
theorem Sound.mailed (sound : r.Sound) (asking : Asking fd r a)
    (peer : r.acceptor.clientAddr = some addr) (running : (r.consumers i).phase ≠ .stopped) :
    ({ r with acceptor := { a with sq := a.sq ++ [AcceptorSqe.addConn i fd] } }.setConsumer i
      ((r.consumers i).setSocketAddr fd addr)).Sound := by
  let a' : Acceptor n := { a with sq := a.sq ++ [.addConn i fd] }
  have asked : a'.asked = a.asked := by simp [a', Acceptor.asked]
  have here : a'.messages i = r.acceptor.messages i ++ [fd] := by
    rw [Acceptor.messages_prepared, AcceptorSqe.message?, if_pos rfl, asking.messages]
    rfl
  have there : ∀ j ≠ i, a'.messages j = r.acceptor.messages j := by
    intro j other
    rw [Acceptor.messages_prepared, AcceptorSqe.message?, if_neg other.symm, asking.messages]
    exact append_nil _
  refine sound.forwarded
    (asking.answered sound rfl asked rfl rfl rfl rfl rfl (update_eq Worker.cfg rfl)
      (update_eq Worker.phase rfl)) peer running ?_ ?_
    (fun j other => same_of_eq (there j other) (update_of_ne other ..)) rfl
  · change (a'.messages i ++ (update r.consumers i _ i).waiting).Perm _
    rw [here, update_self, append_assoc]
    exact perm_middle
  · change (update r.consumers i _ i).socketAddresses = _
    rw [update_self]
    rfl

/-- The connection is in the queue of the consumer. -/
theorem Sound.queued (sound : r.Sound) (asking : Asking fd r a)
    (peer : r.acceptor.clientAddr = some addr) (running : (r.consumers i).phase ≠ .stopped) :
    ({ r with acceptor := a }.setConsumer i { (r.consumers i).setSocketAddr fd addr with
      connQueue := (r.consumers i).connQueue ++ [fd] }).Sound := by
  refine sound.forwarded
    (asking.answered sound rfl rfl rfl rfl rfl rfl rfl (update_eq Worker.cfg rfl)
      (update_eq Worker.phase rfl))
    peer running ?_ ?_
    (fun j other => same_of_eq (asking.messages j) (update_of_ne other ..)) rfl
  · change (a.messages i ++ (update r.consumers i _ i).waiting).Perm _
    rw [asking.messages, update_self]
    change (r.acceptor.messages i ++ (_ ++ ((r.consumers i).connQueue ++ [fd]))).Perm _
    rw [← append_assoc _ _ [fd], ← append_assoc _ _ [fd]]
    exact perm_append_singleton fd _
  · change (update r.consumers i _ i).socketAddresses = _
    rw [update_self]
    rfl

/-- A descriptor is sent to a consumer or closed. -/
theorem Sound.forward (sound : r.Sound) (asking : Asking fd r a) {env : AcceptorEnv n}
    (keepAlive : a.tcpKeepAlive = true → env.keepAlive = none)
    (running : (r.consumers env.consumer).phase ≠ .stopped) :
    ({ r with acceptor := a }.forward env fd).Sound := by
  have fine : ¬ (a.tcpKeepAlive = true ∧ env.keepAlive.isSome = true) := by
    rintro ⟨active, failed⟩
    rw [keepAlive active] at failed
    cases failed
  rw [Reactor.forward, if_neg fine]
  cases peer : r.acceptor.clientAddr with
  | none =>
    simp only [asking.clientAddr.trans peer]
    refine sound.disposed
      (asking.answered sound rfl rfl rfl rfl rfl rfl rfl (fun _ => rfl) fun _ => rfl)
      (fun j => same_of_eq (asking.messages j) rfl) ?_
    change r.disposed ++ [(fd, a.clientAddr)] = _
    rw [asking.clientAddr]
  | some addr =>
    simp only [asking.clientAddr.trans peer]
    cases rings : a.ringsMessaging with
    | true =>
      rw [addConnMethod_ring rings]
      cases free : env.sqe 1 with
      | true =>
        have prepared := sound.mailed asking peer running
        exact prepared
      | false =>
        have refused := sound.refused (i := env.consumer) asking addr
        exact refused
    | false =>
      have queue : ((r.consumers env.consumer).setSocketAddr fd addr).cfg.ringsMessaging =
          false := (sound.uniform.features env.consumer).trans (asking.rings ▸ rings)
      have queued := sound.queued asking peer running
      rw [addConnMethod_queue rings, addConnViaQueue]
      simp only [setConsumer, update_self, Worker.addConnToQueue_of_queue queue, update_idem]
      exact queued

end Forward

variable (sound : r.Sound)
include sound

/-- The completion of an accept is at hand, and there is no other. -/
theorem Sound.renewed {c : AcceptorCqe n} {cq : List (AcceptorCqe n)}
    (first : r.acceptor.cq = c :: cq) (kind : c.sqe = .accept) (left : Nat) :
    r.acceptor.accepts = c.accepted?.toList ∧ Renewed r { r.acceptor with
      phase := .events left, cq := cq, sq := r.acceptor.sq ++ [.accept] } := by
  have asked := sound.asked
  rw [Acceptor.asked, first, countP_cons, if_pos (decide_eq_true kind)] at asked
  have others : cq.countP (fun c => c.sqe = .accept) = 0 := by omega
  have requests : (r.acceptor.inflight ++ r.acceptor.sq).countP (fun q => q = .accept) = 0 := by
    omega
  have rest := Acceptor.accepts_nil others
  refine ⟨?_, rest, fun i => ?_, ?_, Phase.noConfusion, rfl, rfl⟩
  · rw [Acceptor.accepts, first]
    cases accepted : c.accepted? with
    | none => rw [filterMap_cons_none accepted, rest]; rfl
    | some fd => rw [filterMap_cons_some accepted, rest]; rfl
  · exact (Acceptor.messages_prepared r.acceptor .accept i).trans (append_nil _)
  · rw [Acceptor.asked, ← append_assoc, countP_append, requests, others]
    exact le_refl 1

/-- The acceptor handles a completion. -/
theorem Sound.event {env : AcceptorEnv n} (careful : r.Careful (.event env))
    (done : r.step (.event env) = some r') : r'.Sound := by
  simp only [step] at done
  split at done
  · rename_i left c cq phase first
    cases done
    unfold handleEvent
    cases kind : c.sqe with
    | addConn j fd =>
      -- The completion of a message is not looked at.
      have other : c.sqe ≠ .accept := by
        rw [kind]
        rintro ⟨⟩
      have silent : c.accepted? = none := if_neg fun accepted => other accepted.1
      refine sound.of_acceptor ?_ rfl (fun _ => rfl) ?_ (fun stopped => by cases stopped) rfl
      · rw [Acceptor.accepts, Acceptor.accepts, first, filterMap_cons_none silent]
      · have asked := sound.asked
        rw [Acceptor.asked, first, countP_cons, if_neg (by simpa using other)] at asked
        exact asked
    | accept =>
      obtain ⟨free, fine⟩ := careful c (by rw [first]; rfl) kind
      obtain ⟨before, renewed⟩ := sound.renewed first kind left
      simp only [free, Acceptor.addAcceptRequest, Bool.not_true, Bool.false_eq_true, if_false]
      by_cases error : c.res < 0
      · have silent : c.accepted? = none := if_neg fun accepted => not_lt.mpr accepted.2 error
        rw [silent] at before
        rw [if_pos error]
        exact sound.of_acceptor (renewed.after.trans before.symm) renewed.clientAddr
          renewed.messages renewed.asked (fun stopped => absurd stopped renewed.running)
          renewed.rings
      · obtain ⟨keepAlive, serving⟩ := fine (not_lt.mp error)
        have accepted : c.accepted? = some c.res := if_pos ⟨kind, not_lt.mp error⟩
        rw [accepted] at before
        rw [if_neg error]
        exact sound.forward ⟨renewed, before⟩ keepAlive serving
  · cases done

/-! ## The kernel -/

/-- A connection is accepted. -/
theorem Sound.entered {a : Acceptor n} (valid : 0 ≤ fd) (new : fd ∉ r.openFds)
    (before : r.acceptor.accepts = []) (after : a.accepts = [fd]) (clientAddr : a.clientAddr = peer)
    (messages : ∀ i, (a.messages i).Perm (r.acceptor.messages i)) (asked : a.asked ≤ 1)
    (running : a.phase ≠ .stopped) (rings : a.ringsMessaging = r.acceptor.ringsMessaging) :
    { r with
      acceptor := a, openFds := fd :: r.openFds
      accepted := r.accepted ++ [(fd, peer)] }.Sound := by
  set r' : Reactor n := { r with
    acceptor := a, openFds := fd :: r.openFds, accepted := r.accepted ++ [(fd, peer)] } with same
  have letters : ∀ i, Parcels.Same r.parcels r'.parcels (some i) :=
    fun i => ⟨(messages i).append_right _, fun _ _ => rfl⟩
  have added : Parcels.Added fd r.parcels r'.parcels none := by
    refine ⟨?_, ?_⟩
    · change a.accepts.Perm (fd :: r.acceptor.accepts)
      rw [before, after]
    · change ∀ l ∈ r.acceptor.accepts, _
      rw [before]
      exact forall_mem_nil _
  have others : ∀ b ≠ none, Parcels.Same r.parcels r'.parcels b := by
    rintro (_ | i) other
    · exact absurd rfl other
    · exact letters i
  have under : ∀ l, r'.Underway l → l = fd ∨ r.Underway l := by
    rintro l ⟨_ | i, member⟩
    · change l ∈ a.accepts at member
      rw [after] at member
      exact Or.inl (mem_singleton.mp member)
    · exact Or.inr ⟨some i, (letters i).box.mem_iff.mp member⟩
  refine ⟨⟨?_, sound.apart.added ?_ added others, ?_, ?_⟩, ?_, ?_,
    fun i => sound.known_of_same (letters i), asked, sound.uniform.of_cfg (fun _ => rfl) rings⟩
  · have tag : r'.parcels.tag none fd = peer := clientAddr
    have account := sound.account
    rw [Parcels.content_added added others, tag]
    change ((r.accepted ++ [(fd, peer)] : List _) : Multiset (Int × Option NetAddr)) =
      (r.handled.map Prod.snd : List (Int × Option NetAddr)) + r.disposed + _
    rw [← Multiset.coe_add, account, add_assoc, add_comm r.parcels.content]
    rfl
  · intro b member
    exact new (sound.opened fd ⟨b, member⟩)
  · exact fun stopped => absurd stopped running
  · exact fun i ended => letters_nil_of_same (letters i) (sound.gone i ended)
  · intro l member
    rcases under l member with rfl | old
    · exact mem_cons_self
    · exact mem_cons_of_mem _ (sound.opened l old)
  · intro l member
    rcases under l member with rfl | old
    · exact valid
    · exact sound.valid l old

/-- A message reaches the consumer. -/
theorem Sound.received {a : Acceptor n} (accepts : a.accepts = r.acceptor.accepts)
    (clientAddr : a.clientAddr = r.acceptor.clientAddr)
    (here : (r.acceptor.messages i).Perm (fd :: a.messages i))
    (there : ∀ j ≠ i, (a.messages j).Perm (r.acceptor.messages j)) (asked : a.asked ≤ 1)
    (phase : a.phase = r.acceptor.phase) (rings : a.ringsMessaging = r.acceptor.ringsMessaging) :
    ({ r with acceptor := a }.setConsumer i ((r.consumers i).receive fd)).Sound := by
  have letter : fd ∈ r.letters i := mem_append_left _ (here.mem_iff.mpr mem_cons_self)
  have announces : Cqe.announces
      { sqe := { flag := .addConn, key := 0, fd := fd }, res := fd } = some fd :=
    if_pos ⟨rfl, sound.valid fd ⟨some i, letter⟩⟩
  have waiting : ((r.consumers i).receive fd).waiting.Perm (fd :: (r.consumers i).waiting) := by
    rw [Worker.waiting, Worker.receive, filterMap_append, filterMap_cons_some announces,
      append_assoc]
    exact perm_middle
  have phases := update_eq (r := r) (i := i) (w := (r.consumers i).receive fd) Worker.phase rfl
  refine sound.of_same ?_ rfl rfl rfl sound.opened asked ?_
    (fun j ended => sound.gone j ((phases j).symm.trans ended))
    (sound.uniform.of_cfg (update_eq Worker.cfg rfl) rings)
  · rintro (_ | j)
    · refine ⟨?_, fun _ _ => clientAddr⟩
      change a.accepts.Perm r.acceptor.accepts
      rw [accepts]
    · by_cases same : j = i
      · subst same
        refine ⟨?_, fun l _ => ?_⟩
        · change (a.messages j ++ (update r.consumers j _ j).waiting).Perm
            (r.acceptor.messages j ++ (r.consumers j).waiting)
          rw [update_self]
          exact ((waiting.append_left _).trans perm_middle).trans (here.symm.append_right _)
        · change (update r.consumers j _ j).socketAddresses.lookup l = _
          rw [update_self]
          rfl
      · refine ⟨?_, fun l _ => ?_⟩
        · change (a.messages j ++ (update r.consumers i _ j).waiting).Perm
            (r.acceptor.messages j ++ (r.consumers j).waiting)
          rw [update_of_ne same]
          exact (there j same).append_right _
        · change (update r.consumers i _ j).socketAddresses.lookup l = _
          rw [update_of_ne same]
          rfl
  · intro stopped
    have clear := sound.stopped (phase ▸ stopped)
    rw [clear.messages i] at here
    cases here.symm.eq_nil

/-- The kernel completes a request. -/
theorem Sound.complete {i : Nat} {res : Int}
    (careful : r.Careful (.complete i res peer)) (done : r.step (.complete i res peer) = some r') :
    r'.Sound := by
  simp only [step] at done
  split at done
  · cases done
  · rename_i q found
    have fine := careful q found
    have asked : (r.acceptor.completed i q res).asked ≤ 1 :=
      (Acceptor.completed_asked found).trans_le sound.asked
    have messages := Acceptor.completed_messages (x := res) found
    have accepts := Acceptor.completed_accepts (a := r.acceptor) (i := i) (q := q) (x := res)
    unfold execute at done
    cases q with
    | accept =>
      rw [if_pos rfl] at fine
      -- The accept was the only one, so no other is answered.
      have only := sound.asked
      have before : r.acceptor.accepts = [] := by
        refine Acceptor.accepts_nil ?_
        have requests := (Acceptor.completed_requests (x := res) found).countP_eq
          (fun q => q = .accept)
        rw [countP_cons, if_pos (decide_eq_true rfl)] at requests
        rw [Acceptor.asked, requests] at only
        omega
      by_cases error : res < 0
      · have silent : AcceptorCqe.accepted? (⟨.accept, res⟩ : AcceptorCqe n) = none :=
          if_neg fun accepted => not_lt.mpr accepted.2 error
        rw [if_pos error] at done
        cases done
        rw [silent] at accepts
        refine sound.of_same ?_ rfl rfl rfl sound.opened asked ?_ sound.gone
          (sound.uniform.of_cfg (fun _ => rfl) rfl)
        · rintro (_ | j)
          · refine ⟨?_, fun _ _ => rfl⟩
            change (Acceptor.accepts _).Perm r.acceptor.accepts
            rw [accepts]
            exact .of_eq (append_nil _)
          · exact ⟨(messages j).symm.append_right _, fun _ _ => rfl⟩
        · intro stopped
          have clear := sound.stopped stopped
          refine ⟨accepts.trans ((append_nil _).trans clear.accepts), fun j => ?_⟩
          have perm := messages j
          rw [clear.messages j] at perm
          exact perm.symm.eq_nil
      · have accepted : AcceptorCqe.accepted? (⟨.accept, res⟩ : AcceptorCqe n) = some res :=
          if_pos ⟨rfl, not_lt.mp error⟩
        rw [if_neg error] at done
        dsimp only at done
        split_ifs at done with used
        obtain ⟨new, _⟩ := not_or.mp used
        cases done
        rw [accepted, before] at accepts
        exact sound.entered (not_lt.mp error) new before accepts rfl
          (fun j => (messages j).symm) asked (fine (not_lt.mp error)) rfl
    | addConn j fd =>
      have other : (AcceptorSqe.addConn j fd : AcceptorSqe n) ≠ .accept := by rintro ⟨⟩
      have silent : AcceptorCqe.accepted? (⟨.addConn j fd, res⟩ : AcceptorCqe n) = none :=
        if_neg fun accepted => other accepted.1
      rw [if_neg other] at fine
      rw [if_neg (not_lt.mpr fine)] at done
      dsimp only at done
      split_ifs at done with closed
      cases done
      rw [silent] at accepts
      refine sound.received (accepts.trans (append_nil _)) rfl ?_ ?_ asked rfl rfl
      · have here := messages j
        rw [AcceptorSqe.message?, if_pos rfl] at here
        exact here
      · intro k another
        have there := messages k
        rw [AcceptorSqe.message?, if_neg another.symm] at there
        exact there.symm

omit sound

/-! ## The consumers -/

section Consumer

variable {label : Gain.Label} {w : Worker}

variable (careful : r.Careful (.consumer i label))
include careful

/-- A descriptor that is under way stays open. -/
theorem Sound.opened_consumed (sound : r.Sound)
    (under : r.Underway fd) : fd ∈ (r.consumed i label w).openFds := by
  refine mem_filter.mpr ⟨sound.opened fd under, decide_eq_true fun closed => ?_⟩
  exact careful.2 fd closed under

/-- The consumer takes none of its letters. -/
theorem Sound.kept (sound : r.Sound)
    (cfg : w.cfg = (r.consumers i).cfg) (nothing : (r.consumers i).newcomer label = none)
    (waiting : w.waiting = (r.consumers i).waiting)
    (addresses : w.socketAddresses = (r.consumers i).socketAddresses)
    (ends : w.phase = .stopped → (r.consumers i).phase = .stopped ∨ (r.consumers i).Ends label) :
    (r.consumed i label w).Sound := by
  have handled : (r.consumed i label w).handled = r.handled := by
    rw [consumed, nothing]
    exact append_nil _
  refine sound.of_same ?_ rfl rfl handled (fun fd => sound.opened_consumed careful) sound.asked
    sound.stopped ?_ (sound.uniform.of_cfg (update_eq Worker.cfg cfg) rfl)
  · rintro (_ | j)
    · exact ⟨.refl _, fun _ _ => rfl⟩
    · by_cases same : j = i
      · subst same
        refine ⟨?_, fun l _ => ?_⟩
        · change (r.acceptor.messages j ++ (update r.consumers j w j).waiting).Perm
            (r.letters j)
          rw [update_self, waiting]
          exact .refl _
        · change (update r.consumers j w j).socketAddresses.lookup l = _
          rw [update_self, addresses]
          rfl
      · exact same_of_eq rfl (update_of_ne same ..)
  · intro j ended
    by_cases same : j = i
    · subst same
      change (update r.consumers j w j).phase = .stopped at ended
      rw [update_self] at ended
      rcases ends ended with before | now
      · exact sound.gone j before
      · refine eq_nil_iff_forall_not_mem.mpr fun fd member => ?_
        have taken := careful.1 now fd member
        rw [nothing] at taken
        cases taken
    · change (update r.consumers i w j).phase = .stopped at ended
      rw [update_of_ne same] at ended
      exact sound.gone j ended

/-- The consumer takes a letter, with the address stored for it. -/
theorem Sound.taken (sound : r.Sound) (cfg : w.cfg = (r.consumers i).cfg) {addr : Option NetAddr}
    (newcomer : (r.consumers i).newcomer label = some (fd, addr))
    (waiting : (r.consumers i).waiting.Perm (fd :: w.waiting))
    (addresses : w.socketAddresses = (r.consumers i).socketAddresses.erase fd)
    (remote : ∀ a, (r.consumers i).socketAddresses.lookup fd = some a → addr = some a)
    (ends : w.phase = .stopped → (r.consumers i).phase = .stopped ∨ (r.consumers i).Ends label) :
    (r.consumed i label w).Sound := by
  set r' := r.consumed i label w with same
  have consumer : r'.consumers i = w := update_self ..
  have letter : (r.letters i).Perm (fd :: r'.letters i) := by
    have left := waiting.append_left (r.acceptor.messages i)
    change (r.letters i).Perm (fd :: (r.acceptor.messages i ++ (r'.consumers i).waiting))
    rw [consumer]
    exact left.trans perm_middle
  have first : fd ∈ r.letters i := letter.mem_iff.mpr mem_cons_self
  have nodup : (fd :: r'.letters i).Nodup := letter.nodup_iff.mp (sound.apart.nodup (some i))
  have looked : ∀ l ∈ r'.letters i, (r'.consumers i).socketAddresses.lookup l =
      (r.consumers i).socketAddresses.lookup l := by
    intro l member
    have other : l ≠ fd := fun here => (nodup_cons.mp nodup).1 (here ▸ member)
    rw [consumer, addresses, AList.lookup_erase_ne other]
  have removed : Parcels.Added fd r'.parcels r.parcels (some i) :=
    ⟨letter, fun l member => (looked l member).symm⟩
  have others : ∀ b ≠ some i, Parcels.Same r.parcels r'.parcels b := by
    rintro (_ | j) other
    · exact ⟨.refl _, fun _ _ => rfl⟩
    · exact same_of_eq rfl (update_of_ne (fun here => other (congrArg some here)) ..)
  have under : ∀ l, r'.Underway l → r.Underway l := by
    rintro l ⟨b, member⟩
    by_cases here : b = some i
    · subst here
      exact ⟨some i, letter.mem_iff.mpr (mem_cons_of_mem _ member)⟩
    · exact ⟨b, (others b here).box.mem_iff.mp member⟩
  have tag : r.parcels.tag (some i) fd = addr := by
    obtain ⟨a, stored⟩ := isSome_iff_exists.mp (sound.known i fd first)
    exact stored.trans (remote a stored).symm
  refine ⟨⟨?_, (sound.apart.removed removed others).1, sound.stopped, ?_⟩,
    fun l member => sound.opened_consumed careful (under l member),
    fun l member => sound.valid l (under l member), ?_, sound.asked,
    sound.uniform.of_cfg (update_eq Worker.cfg cfg) rfl⟩
  · have account := sound.account
    rw [Parcels.content_removed removed others, tag] at account
    have handled : r'.handled.map Prod.snd = r.handled.map Prod.snd ++ [(fd, addr)] := by
      rw [same, consumed, newcomer, map_append]
      rfl
    change (r.accepted : Multiset (Int × Option NetAddr)) = _ + (r.disposed : Multiset _) + _
    rw [account, handled, ← Multiset.coe_add, Multiset.coe_singleton, add_right_comm _ {(fd, addr)},
      add_assoc _ {(fd, addr)}]
  · intro j ended
    by_cases here : j = i
    · subst here
      rw [consumer] at ended
      rcases ends ended with before | now
      · rw [sound.gone j before] at first
        cases first
      · -- All letters are the one that is taken.
        refine eq_nil_iff_forall_not_mem.mpr fun l member => ?_
        have last := careful.1 now l (letter.mem_iff.mpr (mem_cons_of_mem _ member))
        rw [newcomer] at last
        cases last
        exact (nodup_cons.mp nodup).1 member
    · change (update r.consumers i w j).phase = .stopped at ended
      rw [update_of_ne here] at ended
      exact letters_nil_of_same (others (some j) fun hit => here (Option.some.inj hit))
        (sound.gone j ended)
  · intro j l member
    by_cases here : j = i
    · subst here
      rw [looked l member]
      exact sound.known j l (letter.mem_iff.mpr (mem_cons_of_mem _ member))
    · exact sound.known_of_same (others (some j) fun hit => here (Option.some.inj hit)) l member

/-- A consumer takes a step. -/
theorem Sound.consumer (sound : r.Sound)
    (done : r.step (.consumer i label) = some r') : r'.Sound := by
  have other : ∀ fd addr, label ≠ .handOff fd addr := by
    rintro fd addr rfl
    cases done
  have stepped : ((r.consumers i).step label).map (r.consumed i label) = some r' := by
    cases label with
    | handOff fd addr => cases done
    | _ => exact done
  obtain ⟨w, moved, rfl⟩ := map_eq_some_iff.mp stepped
  have cfg := (Worker.step_stepped (sound.uniform.tcp i) moved).cfg
  obtain ⟨delivery, ends⟩ :=
    Worker.step_delivery (sound.uniform.kind i) (sound.uniform.tcp i) other moved
  cases delivery with
  | kept nothing waiting addresses => exact sound.kept careful cfg nothing waiting addresses ends
  | taken newcomer waiting addresses remote =>
    exact sound.taken careful cfg newcomer waiting addresses remote ends

end Consumer

/-! ## Runs -/

/-- Every careful step loses no descriptor. -/
theorem Sound.step {label : Label n} (sound : r.Sound) (careful : r.Careful label)
    (done : r.step label = some r') : r'.Sound := by
  cases label with
  | shutdown =>
    cases done
    exact sound.of_acceptor rfl rfl (fun _ => rfl) sound.asked
      (fun stopped => ⟨(sound.stopped stopped).accepts, (sound.stopped stopped).messages⟩) rfl
  | turn entries result => exact sound.turn careful done
  | event env => exact sound.event careful done
  | peek | endBatch =>
    simp only [Reactor.step] at done
    split_ifs at done
    cases done
    refine sound.of_acceptor rfl rfl (fun _ => rfl) sound.asked (fun stopped => ?_) rfl
    cases stopped
  | complete i res peer => exact sound.complete careful done
  | consumer i label => exact sound.consumer careful done

theorem start_box (setup : Setup n) (b : Option (Fin n)) : (start setup).parcels.box b = [] := by
  cases b <;> rfl

/-- There is no descriptor at the start. -/
theorem start_sound (setup : Setup n) : (start setup).Sound := by
  have none' : ∀ fd, ¬ (start setup).Underway fd := by
    rintro fd ⟨b, member⟩
    rw [start_box setup b] at member
    cases member
  refine ⟨⟨?_, ⟨fun b => ?_, fun {b} _ k here => absurd ⟨b, here⟩ (none' k)⟩, ?_, fun _ _ => rfl⟩,
    fun fd under => absurd under (none' fd), fun fd under => absurd under (none' fd),
    fun i fd letter => absurd ⟨some i, letter⟩ (none' fd), le_refl 1,
    ⟨setup.kind, setup.tcp, setup.features⟩⟩
  · have empty : (start setup).parcels.content = 0 := by
      refine Finset.sum_eq_zero fun b _ => ?_
      rw [Parcels.parcels, start_box setup b]
      rfl
    rw [empty]
    rfl
  · rw [start_box setup b]
    exact nodup_nil
  · rintro ⟨⟩

/-- When all workers have returned, nothing is under way. -/
theorem Sound.settled (sound : r.Sound) (stopped : r.acceptor.phase = .stopped)
    (gone : ∀ i, (r.consumers i).phase = .stopped) :
    (r.accepted : Multiset (Int × Option NetAddr)) =
      (r.handled.map Prod.snd : List (Int × Option NetAddr)) + r.disposed := by
  have empty : r.parcels.content = 0 := by
    refine Finset.sum_eq_zero fun b _ => ?_
    have box : r.parcels.box b = [] := by
      cases b with
      | none => exact (sound.stopped stopped).accepts
      | some i => exact sound.gone i (gone i)
    rw [Parcels.parcels, box]
    rfl
  have account := sound.account
  rw [empty, add_zero] at account
  exact account

theorem run_delivers_of_careful (setup : Setup n) {ls : List (Label n)}
    (ran : run step ls (start setup) = some r) (along : Along step Careful ls (start setup)) :
    r.Delivers ∧ (r.acceptor.phase = .stopped → (∀ i, (r.consumers i).phase = .stopped) →
      (r.accepted : Multiset (Int × Option NetAddr)) =
        (r.handled.map Prod.snd : List (Int × Option NetAddr)) + r.disposed) := by
  have sound : r.Sound := invariant_of_run
    (fun _ _ _ careful done sound => Sound.step sound careful done) ran along (start_sound setup)
  exact ⟨sound.toDelivers, sound.settled⟩

/-- An acceptor and one consumer, whose rings exchange messages. -/
def coupled : Setup 1 where
  tcpKeepAlive := false
  maxCQEvents := 16
  ringsMessaging := true
  fd := 3
  openFds := [0, 1, 2, 3]
  consumers := fun _ => Worker.plain .consumer
  streams := fun _ => Worker.keepNothing
  kind := fun _ => rfl
  tcp := fun _ => rfl
  features := fun _ => rfl

/-- A connection is accepted and a message to the consumer prepared. -/
def prepared (i : Fin n) : List (Label n) :=
  [.turn 1 .done, .peek, .complete 0 5 (some 7), .endBatch, .turn 0 .done, .peek,
    .event { consumer := i }]

/-- The message is executed with the result. -/
def announced (i : Fin n) (res : Int) : List (Label n) :=
  prepared i ++ ([.endBatch, .turn 2 .done, .peek, .complete 1 res none] : List (Label n))

/-- The message reaches the consumer, which takes the connection. -/
def received (i : Fin n) : List (Label n) :=
  announced i 0 ++ ([.consumer i (.turn [] 0 .done), .consumer i .peek,
    .consumer i (.event {})] : List (Label n))

theorem run_delivers_of_careful_received : ∃ r, run step (received 0) (start coupled) = some r ∧
    r.accepted = [(5, some 7)] ∧ r.handled = [(0, 5, some 7)] ∧ r.Delivers := by
  have along : Along step Careful (received 0) (start coupled) := by decide +kernel
  obtain ⟨r, ran, accepted, handled⟩ : ∃ r, run step (received 0) (start coupled) = some r ∧
      r.accepted = [(5, some 7)] ∧ r.handled = [(0, 5, some 7)] :=
    exists_run_from (by decide +kernel)
  exact ⟨r, ran, accepted, handled, (run_delivers_of_careful coupled ran along).1⟩

/-- The message fails and nobody looks at its completion. -/
def unheard (i : Fin n) : List (Label n) :=
  announced i (-9) ++ ([.endBatch, .turn 0 .done, .peek, .event { consumer := i }] : List (Label n))

/-- The acceptor is asked to shut down before the message is submitted. -/
def unsubmitted (i : Fin n) : List (Label n) :=
  prepared i ++ ([.shutdown, .endBatch, .turn 2 .done] : List (Label n))

theorem run_not_delivers :
    (∃ r, run step (unheard 0) (start coupled) = some r ∧ r.accepted = [(5, some 7)] ∧
      r.handled = [] ∧ r.disposed = [] ∧ ¬ r.Underway 5 ∧ ¬ r.Delivers) ∧
    ∃ r, run step (unsubmitted 0) (start coupled) = some r ∧ r.accepted = [(5, some 7)] ∧
      r.handled = [] ∧ r.disposed = [] ∧ r.acceptor.phase = .stopped ∧ ¬ r.Delivers := by
  refine ⟨?_, ?_⟩
  · obtain ⟨r, ran, accepted, handled, disposed, nowhere⟩ : ∃ r,
        run step (unheard 0) (start coupled) = some r ∧ r.accepted = [(5, some 7)] ∧
        r.handled = [] ∧ r.disposed = [] ∧ ¬ r.Underway 5 := exists_run_from (by decide +kernel)
    refine ⟨r, ran, accepted, handled, disposed, nowhere, fun delivers => ?_⟩
    -- The account would have the connection in some box.
    have account := delivers.account
    rw [accepted, handled, disposed] at account
    have member : ((5, some 7) : Int × Option NetAddr) ∈ r.parcels.content := by
      rw [map_nil, Multiset.coe_nil, zero_add, zero_add] at account
      rw [← account]
      exact mem_singleton_self _
    obtain ⟨b, _, boxed⟩ := Multiset.mem_sum.mp member
    obtain ⟨fd, inside, same⟩ := mem_map.mp (Multiset.mem_coe.mp boxed)
    have here : fd = 5 := congrArg Prod.fst same
    exact nowhere ⟨b, here ▸ inside⟩
  · obtain ⟨r, ran, accepted, handled, disposed, stopped, busy⟩ : ∃ r,
        run step (unsubmitted 0) (start coupled) = some r ∧ r.accepted = [(5, some 7)] ∧
        r.handled = [] ∧ r.disposed = [] ∧ r.acceptor.phase = .stopped ∧ ¬ r.acceptor.Clear :=
      exists_run_from (by decide +kernel)
    exact ⟨r, ran, accepted, handled, disposed, stopped,
      fun delivers => busy (delivers.stopped stopped)⟩

end Reactor

end Gain
