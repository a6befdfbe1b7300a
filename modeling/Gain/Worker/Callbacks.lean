import Gain.Worker.Exclusion

/-! # The callbacks of a connection

`OnAccept` comes first and once, then `OnRead` and `OnWrite` in any order, and
`OnClose` last. An entry that does not stand for an accepted connection gets no
callback at all.
-/

namespace Gain

open List Session

namespace Callback

/-- `OnRead` and `OnWrite` -/
def ofData : Callback → Prop
  | onRead _ => True
  | onWrite _ => True
  | _ => False

/-- `OnAccept (OnRead | OnWrite)*` -/
def Opened (word : List Callback) : Prop :=
  ∃ middle, word = onAccept :: middle ∧ ∀ callback ∈ middle, callback.ofData

/-- `OnAccept (OnRead | OnWrite)* OnClose?` -/
def Lawful (word : List Callback) : Prop :=
  Opened word ∨ ∃ opened err, Opened opened ∧ word = opened ++ [onClose err]

/-- `OnAccept (OnRead | OnWrite)* OnClose` -/
def Closed (word : List Callback) : Prop :=
  ∃ opened err, Opened opened ∧ word = opened ++ [onClose err]

variable {word new : List Callback}

theorem Opened.append (opened : Opened word) (data : ∀ callback ∈ new, callback.ofData) :
    Opened (word ++ new) := by
  obtain ⟨middle, rfl, all⟩ := opened
  refine ⟨middle ++ new, rfl, ?_⟩
  intro callback member
  rcases mem_append.mp member with old | fresh
  · exact all callback old
  · exact data callback fresh

theorem Opened.close (opened : Opened word) (err : Option Error) : Closed (word ++ [onClose err]) :=
  ⟨word, err, opened, rfl⟩

theorem Lawful.onAccept (lawful : Lawful word) : onAccept ∈ word := by
  rcases lawful with ⟨middle, rfl, _⟩ | ⟨opened, err, ⟨middle, rfl, _⟩, rfl⟩
  · exact mem_cons_self
  · exact mem_append_left _ mem_cons_self

end Callback

namespace Session

variable {cfg : Config} {x x' : Session} {c : Cqe} {ops : List ConnOp}

/-- What is fired before the next request is prepared. -/
theorem Prelude.word (prelude : Prelude cfg ops c x x') :
    ∃ new, x'.history.word = x.history.word ++ new ∧ ∀ callback ∈ new, callback.ofData := by
  cases prelude with
  | reread _ _ received _ _ =>
    obtain ⟨_, _, _, _, rfl⟩ := onKernelRead_eq received
    exact ⟨[], (append_nil _).symm, by simp⟩
  | worked _ _ received called =>
    obtain ⟨_, _, _, _, rfl⟩ := onKernelRead_eq received
    exact ⟨[.onRead c.res], (calls_still called).word, by simp [Callback.ofData]⟩
  | wrote _ sent called =>
    obtain ⟨_, _, _, _, rfl⟩ := onKernelWrite_eq sent
    exact ⟨[.onWrite c.res], (calls_still called).word, by simp [Callback.ofData]⟩

end Session

namespace View

variable {k : Int} {v v' : View} {cfg : Config} {rules : Rules} {exact' : Prop}

/-- Every move keeps the word an open one. -/
theorem opened_of_move (opened : Callback.Opened v.history.word)
    (move : Move cfg rules exact' v v') : Callback.Opened v'.history.word := by
  cases move with
  | dropped _ _ | returned _ _ | swept _ _ | cancelled | received _ _ _ | sent _ _ _ _ _ _ _ _
  | closed _ _ _ => exact opened
  | @armed c rest mem sq shut ops x x' new first fine prelude armed calls sized =>
    obtain ⟨fired, word, data⟩ := prelude.word
    change Callback.Opened x'.history.word
    rw [armed.history, word]
    exact opened.append data
  | spawned first some' state received =>
    obtain ⟨_, _, _, _, rfl⟩ := onKernelRead_eq received
    exact opened
  | @flushed c rest mem sq shut ops x x' first fine state flag sent called calls sized =>
    obtain ⟨_, _, _, _, rfl⟩ := onKernelWrite_eq sent
    change Callback.Opened x'.history.word
    rw [(calls_still called).word]
    have written : ∀ callback ∈ [Callback.onWrite c.res], callback.ofData := by
      simp [Callback.ofData]
    exact opened.append written
  | @asyncArmed mem sq shut x new waiting armed sized =>
    change Callback.Opened x.history.word
    rw [armed.history]
    exact opened
  | begun waiting => exact opened.append (by simp [Callback.ofData])
  | @called n mem sq shut op x running called call sized =>
    change Callback.Opened x.history.word
    rw [(call_method called).still.word]
    exact opened
  | failed _ _ =>
    change Callback.Opened (History.word (if _ then _ else _))
    split_ifs <;> exact opened

theorem opened_of_born (welcoming : ¬ rules.failing) (born : Born cfg rules exact' k v) :
    Callback.Opened v.history.word := by
  cases born with
  | entered entrance allowed => exact absurd allowed welcoming
  | @welcomed v mem sq shut ops x x' new entrance called armed calls sized =>
    change Callback.Opened x'.history.word
    rw [armed.history, (calls_still called).word]
    change Callback.Opened (v.history.word ++ [.onAccept])
    rw [entrance.history]
    exact ⟨[], rfl, by simp⟩

theorem closed_of_ends {h : History} (opened : Callback.Opened v.history.word)
    (ends : Ends cfg rules v h) : Callback.Closed h.word := by
  cases ends with
  | eof _ _ _ _ | closed _ _ _ _ => exact opened.close _
  | failed first fine prelude allowed =>
    obtain ⟨fired, word, data⟩ := prelude.word
    change Callback.Closed (_ ++ _)
    rw [word]
    exact (opened.append data).close _

end View

/-- Every accepted connection is configured and armed. -/
def Rules.welcoming : Rules := { failing := False }

instance : Rules.welcoming.Checked where
  call _ := isTrue trivial
  send _ _ := isTrue trivial
  sweep _ := isTrue trivial
  eof := isTrue trivial
  full := isTrue trivial
  failing := isFalse id
  more := isTrue trivial

namespace Worker

variable {w w' : Worker} {cfg : Config} {streams : Streams}

/-- In every state of an orderly run the callbacks of an entry form a lawful word, or there
are none; and there are none for the listener. -/
theorem run_lawful_of_orderly (tcp : cfg.sendRecvMsg = false)
    (started : start cfg streams = some w) {ls : List Label} (ran : run step ls w = some w')
    (along : Along step (Orderly .welcoming) ls w) :
    (∀ life < w'.nextLife, (w'.histories life).word = [] ∨
      Callback.Lawful (w'.histories life).word) ∧
    ∀ o, w'.connections.lookup w'.cfg.listener = some o →
      (w'.histories (w'.heap o).life).word = [] := by
  have lasting : Lasting cfg .welcoming False (fun _ v => Callback.Opened v.history.word)
      (fun h => h.word = [] ∨ Callback.Lawful h.word) := by
    refine ⟨View.opened_of_born id, fun _ opened move => View.opened_of_move opened move,
      fun _ opened ends => Or.inr (Or.inr (View.closed_of_ends opened ends)), ?_⟩
    rintro h ⟨_, _, silent | ⟨failing, _⟩⟩
    · exact Or.inl silent
    · exact failing.elim
  have lives := run_lives lasting tcp started ran along
  refine ⟨?_, fun o found => (lives.listener o found).word⟩
  intro life lt
  rcases lives.cases lt with ⟨k, o, _, _, rfl, opened⟩ | silent | past
  · exact Or.inr (Or.inl opened)
  · exact Or.inl silent.word
  · exact past

/-- A connection sends two bytes, its handler closes it and the close is completed. -/
def visit : List Label :=
  admission ++ ([.endBatch, .asyncWrite {}, .turn [] 1 .done, .peek, .endBatch, .asyncWrite {},
    .complete 0 2 false [1, 2] none, .turn [] 0 .done, .peek, .event { handler := [.close] },
    .endBatch, .asyncWrite {}, .turn [] 1 .done, .peek, .endBatch, .asyncWrite {},
    .complete 1 0 false [] none, .turn [] 0 .done, .peek, .event {}] : List Label)

theorem run_lawful_of_orderly_visit : ∃ w w', start (plain .consumer) keepNothing = some w ∧
    run step visit w = some w' ∧ w'.nextLife = 1 ∧ Callback.Lawful (w'.histories 0).word := by
  obtain ⟨w, w', started, ran, along, one, some'⟩ : ∃ w w',
      start (plain .consumer) keepNothing = some w ∧
      run step visit w = some w' ∧ Along step (Orderly .welcoming) visit w ∧ w'.nextLife = 1 ∧
      (w'.histories 0).word ≠ [] := exists_run (by decide)
  refine ⟨w, w', started, ran, one, ?_⟩
  obtain ⟨lawful, _⟩ := run_lawful_of_orderly rfl started ran along
  exact (lawful 0 (by rw [one]; decide)).resolve_left some'

/-- A connection is accepted and there is no free submission entry to arm it. -/
def acceptedUnarmed : List Label :=
  [.turn [] 1 .done, .peek, .endBatch, .asyncWrite {}, .complete 0 5 false [] (some 7),
    .turn [] 0 .done, .peek, .event { sqe := fun i => i = 0 }]

theorem run_not_lawful : ∃ w w', start (plain .shard) keepNothing = some w ∧
    run step acceptedUnarmed w = some w' ∧ 0 < w'.nextLife ∧ (w'.histories 0).word ≠ [] ∧
      ¬ Callback.Lawful (w'.histories 0).word := by
  obtain ⟨w, w', started, ran, alive, some', unannounced⟩ : ∃ w w',
      start (plain .shard) keepNothing = some w ∧
      run step acceptedUnarmed w = some w' ∧ 0 < w'.nextLife ∧ (w'.histories 0).word ≠ [] ∧
      .onAccept ∉ (w'.histories 0).word := exists_run (by decide)
  exact ⟨w, w', started, ran, alive, some', fun lawful => unannounced lawful.onAccept⟩

end Worker

end Gain
