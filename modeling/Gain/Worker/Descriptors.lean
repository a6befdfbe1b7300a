import Gain.Worker.Callbacks

/-! # Closing descriptors

A connection that ends because its close has completed has had its descriptor
closed exactly once. The other ends only shut the socket down.
-/

namespace Gain

open List

/-- The descriptor was closed. -/
def Cqe.closes (c : Cqe) : Bool := c.sqe.flag = .close ∧ 0 ≤ c.res

variable {c : Cqe}

theorem Cqe.closes_of_error (error : c.res < 0) : c.closes = false := by
  simp [closes, error]

theorem Cqe.closes_of_flag (flag : c.sqe.flag ≠ .close) : c.closes = false := by
  simp [closes, flag]

theorem Sqe.cancelled_closes (q : Sqe) : q.cancelled.closes = false :=
  Cqe.closes_of_error (show ecanceled < 0 by decide)

theorem Sqe.countP_cancelled (l : List Sqe) : (l.map Sqe.cancelled).countP Cqe.closes = 0 := by
  rw [countP_eq_zero]
  intro c member
  obtain ⟨q, _, rfl⟩ := mem_map.mp member
  simp [q.cancelled_closes]

theorem Shape.count_close {state : ConnState} {flags : List Flag} (shape : Shape state flags) :
    flags.count .close ≤ 1 := by
  cases shape <;> decide

namespace View

variable {k : Int} {v v' : View} {cfg : Config} {rules : Rules} {exact' : Prop}

/-- A close that took effect has not been handled yet. -/
def Closes (v : View) : Prop := v.history.closes = v.done.countP Cqe.closes

theorem Closes.le_one (closes : v.Closes) (tidy : v.Tidy k) : v.history.closes ≤ 1 := by
  have fewer : v.done.countP Cqe.closes ≤ (v.requests.map Sqe.flag).count .close := by
    rw [requests, map_append, count_append, map_map, List.count, countP_map]
    refine le_trans (countP_mono_left fun c _ closes => ?_) (Nat.le_add_right _ _)
    have flag : c.sqe.flag = .close := (of_decide_eq_true closes).1
    simp [flag]
  rw [closes]
  exact le_trans fewer tidy.shape.count_close

/-- The only completion was not that of a close. -/
theorem Closes.none_of_alone (closes : v.Closes) (tidy : v.Tidy k) {rest : List Cqe}
    (first : v.done = c :: rest) (state : v.conn.state = .read ∨ v.conn.state = .write) :
    v.history.closes = 0 ∧ rest = [] := by
  obtain ⟨⟨_, done, _, _⟩, read, write⟩ := tidy.alone first state
  change rest = [] at done
  have flag : c.sqe.flag ≠ .close := by
    rcases state with state | state
    · rw [read state]
      decide
    · rw [write state]
      decide
  refine ⟨?_, done⟩
  rw [closes, first, done]
  simp [Cqe.closes_of_flag flag]

/-- Every move keeps the closes counted. -/
theorem Closes.move (tidy : v.Tidy k) (tcp : cfg.sendRecvMsg = false) (closes : v.Closes)
    (move : Move cfg rules exact' v v') : v'.Closes := by
  unfold Closes at closes ⊢
  cases move with
  | @dropped c rest first error =>
    rw [first, countP_cons_of_neg (by simp [Cqe.closes_of_error error])] at closes
    exact closes
  | @armed c rest mem sq shut ops x x' new first fine prelude armed calls sized =>
    obtain ⟨zero, rfl⟩ := Closes.none_of_alone closes tidy first prelude.state.1
    change x'.history.closes = 0
    rw [armed.history, (prelude.acts.frame tcp).closes]
    exact zero
  | @spawned c rest mem sq shut x first some' state received =>
    obtain ⟨zero, rfl⟩ := Closes.none_of_alone closes tidy first (Or.inl state)
    obtain ⟨_, _, _, _, rfl⟩ := Session.onKernelRead_eq received
    exact zero
  | @flushed c rest mem sq shut ops x x' first fine state flag sent called calls sized =>
    have acts : Session.Acts cfg (v.session mem sq shut) x' := Session.written_acts sent called
    have other : c.sqe.flag ≠ .close := by
      rw [flag]
      decide
    rw [first, countP_cons_of_neg (by simp [Cqe.closes_of_flag other])] at closes
    exact (acts.frame tcp).closes.trans closes
  | @asyncArmed mem sq shut x new waiting armed sized =>
    change x.history.closes = _
    rw [armed.history]
    exact closes
  | begun waiting | returned running next | swept idle found => exact closes
  | called running called call sized =>
    exact (Session.Act.frame tcp (.call called)).closes.trans closes
  | received first flag fits | sent first flag _ _ _ _ _ _ =>
    rw [countP_append, countP_singleton, Cqe.closes_of_flag (by simp [flag])]
    exact closes
  | @closed q rest res nonempty data first flag fine =>
    rw [countP_append, countP_singleton, ← closes]
    simp [Cqe.closes, flag, fine]
  | @failed q rest res nonempty data first error =>
    have open' : Cqe.closes ⟨q, res, nonempty, data⟩ = false := Cqe.closes_of_error error
    rw [countP_append, countP_cons_of_neg (by simp [open']), Sqe.countP_cancelled]
    split_ifs <;> exact closes
  | cancelled =>
    rw [countP_append, Sqe.countP_cancelled]
    exact closes

theorem Closes.born (tcp : cfg.sendRecvMsg = false) (born : Born cfg rules exact' k v) :
    v.Closes := by
  cases born with
  | entered entrance allowed => rw [Closes, entrance.history, entrance.idle.done, countP_nil]
  | @welcomed v mem sq shut ops x x' new entrance called armed calls sized =>
    have acts : Session.Acts cfg (v.session mem sq shut) x := Session.fired_acts called
    change x'.history.closes = v.done.countP Cqe.closes
    rw [armed.history, (acts.frame tcp).closes, entrance.idle.done, countP_nil]
    change v.history.closes = 0
    rw [entrance.history]

/-- The completion of its close is handled. -/
theorem Closes.ends (tidy : v.Tidy k) (closes : v.Closes) (noEof : ¬ rules.eof)
    (noFull : ¬ rules.full) {h : History} (ends : Ends cfg rules v h) : h.closes = 1 := by
  cases ends with
  | eof _ _ _ allowed => exact absurd allowed noEof
  | failed _ _ _ allowed => exact absurd allowed noFull
  | @closed c rest first state flag fine =>
    have done : rest = [] := (tidy.last first flag).done
    change v.history.closes = 1
    rw [closes, first, done]
    simp [Cqe.closes, flag, fine]

end View

/-- No peer ends its stream, and there always is a free submission entry. -/
def Rules.unbroken : Rules := { eof := False, full := False }

instance : Rules.unbroken.Checked where
  call _ := isTrue trivial
  send _ _ := isTrue trivial
  sweep _ := isTrue trivial
  eof := isFalse id
  full := isFalse id
  failing := isTrue trivial
  more := isTrue trivial

namespace Worker

variable {w w' : Worker} {cfg : Config} {streams : Streams}

/-- In every state of an orderly run without these ends, the descriptor of a connection that was
announced is closed at most once, and exactly once when the connection is released. -/
theorem run_closes_of_orderly (tcp : cfg.sendRecvMsg = false)
    (started : start cfg streams = some w) {ls : List Label} (ran : run step ls w = some w')
    (along : Along step (Orderly .unbroken) ls w) :
    ∀ life < w'.nextLife, .onAccept ∈ (w'.histories life).word →
      (w'.histories life).closes ≤ 1 ∧
      ((w'.histories life).released = true → (w'.histories life).closes = 1) := by
  have lasting : Lasting cfg .unbroken False (fun _ v => v.Closes ∧ v.Live)
      (fun h => .onAccept ∈ h.word → h.closes = 1) := by
    refine ⟨fun born => ⟨.born tcp born, .born tcp born⟩, ?_, ?_, ?_⟩
    · rintro k v v' tidy ⟨closes, live⟩ move
      exact ⟨closes.move tidy tcp move, live.move tcp move⟩
    · rintro k v h tidy ⟨closes, _⟩ ends _
      exact closes.ends tidy id id ends
    · rintro h ⟨_, _, silent | ⟨_, err, only⟩⟩ announced
      · rw [silent] at announced
        cases announced
      · rw [only] at announced
        cases mem_singleton.mp announced
  have lives := run_lives lasting tcp started ran along
  have regular := run_regular tcp started ran along
  intro life lt announced
  rcases lives.cases lt with ⟨k, o, other, found, rfl, closes, _, unreleased⟩ | silent | once
  · refine ⟨closes.le_one (regular.tidy found other), fun released => ?_⟩
    cases unreleased.symm.trans released
  · rw [silent.word] at announced
    cases announced
  · exact ⟨(once announced).le, fun _ => once announced⟩

theorem run_closes_of_orderly_visit : ∃ w w', start (plain .consumer) keepNothing = some w ∧
    run step visit w = some w' ∧ (w'.histories 0).released = true ∧
      (w'.histories 0).closes = 1 := by
  obtain ⟨w, w', started, ran, along, alive, announced, released⟩ : ∃ w w',
      start (plain .consumer) keepNothing = some w ∧
      run step visit w = some w' ∧ Along step (Orderly .unbroken) visit w ∧ 0 < w'.nextLife ∧
      .onAccept ∈ (w'.histories 0).word ∧ (w'.histories 0).released = true := exists_run (by decide)
  have closes := run_closes_of_orderly rfl started ran along 0 alive announced
  exact ⟨w, w', started, ran, released, closes.2 released⟩

/-- The peer ends its stream. -/
def endOfStream : List Label :=
  admission ++ ([.endBatch, .asyncWrite {}, .turn [] 1 .done, .peek, .endBatch, .asyncWrite {},
    .complete 0 0 false [] none, .turn [] 0 .done, .peek, .event {}] : List Label)

theorem run_not_closes : ∃ w w', start (plain .consumer) keepNothing = some w ∧
    run step endOfStream w = some w' ∧ 0 < w'.nextLife ∧ .onAccept ∈ (w'.histories 0).word ∧
      (w'.histories 0).released = true ∧ (w'.histories 0).closes = 0 :=
  exists_run (by decide)

end Worker

end Gain
