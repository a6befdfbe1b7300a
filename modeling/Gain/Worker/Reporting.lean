import Gain.Worker.Streaming

/-! # What `OnRead` reports

The numbers `OnRead` is called with add up to the bytes received, at every call, as
long as no receive is reported with more data behind it: the bytes of such a receive
are counted into the buffer and no handler is told of them.
-/

namespace Gain

open List Session

/-- The number an `OnRead` is called with. -/
def Callback.read? : Callback → Option Int
  | .onRead n => some n
  | _ => none

/-- What a goroutine has yet to report. -/
def Task.unreported (t : Task) : Int := if t.begun then 0 else t.n

namespace History

variable {h h' : History} {n m : Int}

/-- The numbers `OnRead` was called with, oldest first. -/
def reads (h : History) : List Int := h.word.filterMap Callback.read?

/-- At each call of `OnRead`, the numbers so far add up to the bytes received. -/
def Reports (h : History) : Prop :=
  ∀ i < h.reads.length, ∃ n, h.receivedAt[i]? = some n ∧ (h.reads.take (i + 1)).sum = n

theorem reads_fired (h : History) (callback : Callback) :
    (h.fired callback).reads = h.reads ++ callback.read?.toList := by
  cases callback <;> simp [reads, fired, Callback.read?]

/-- All calls of `OnRead` reported right, and what is not yet reported is `n`. -/
structure Accounts (h : History) (n : Int) : Prop where
  recorded : h.receivedAt.length = h.reads.length
  reports : h.Reports
  total : h.reads.sum + n = h.delivered.length

namespace Accounts

theorem of_same (accounts : h.Accounts n) (word : h'.word = h.word)
    (receivedAt : h'.receivedAt = h.receivedAt) (delivered : h'.delivered = h.delivered) :
    h'.Accounts n := by
  have reads : h'.reads = h.reads := congrArg (List.filterMap Callback.read?) word
  refine ⟨?_, ?_, ?_⟩
  · rw [receivedAt, reads]
    exact accounts.recorded
  · unfold Reports
    rw [receivedAt, reads]
    exact accounts.reports
  · rw [reads, delivered]
    exact accounts.total

/-- A receive is counted. -/
theorem received (accounts : h.Accounts 0) {data : List UInt8} (measured : data.length = n) :
    { h with delivered := h.delivered ++ data }.Accounts n := by
  refine ⟨accounts.recorded, accounts.reports, ?_⟩
  have total := accounts.total
  change h.reads.sum + n = ((h.delivered ++ data).length : Int)
  rw [length_append]
  omega

/-- The handler is told of it. -/
theorem read (accounts : h.Accounts n) : (h.fired (.onRead n)).Accounts 0 := by
  have told : (h.fired (.onRead n)).reads = h.reads ++ [n] := h.reads_fired _
  have sum : (h.reads ++ [n]).sum = h.delivered.length := by
    rw [sum_append, sum_singleton]
    exact accounts.total
  refine ⟨?_, ?_, ?_⟩
  · rw [told, length_append]
    change (h.receivedAt ++ [h.delivered.length]).length = _
    rw [length_append, accounts.recorded]
    rfl
  · intro i lt
    rw [told] at lt ⊢
    change ∃ m, (h.receivedAt ++ [h.delivered.length])[i]? = some m ∧ _
    by_cases old : i < h.reads.length
    · rw [List.getElem?_append_left (by rw [accounts.recorded]; exact old),
        take_append_of_le_length (Nat.succ_le_of_lt old)]
      exact accounts.reports i old
    · have last : i = h.receivedAt.length := by
        rw [length_append, length_singleton] at lt
        rw [accounts.recorded]
        omega
      subst last
      refine ⟨h.delivered.length, List.getElem?_concat_length, ?_⟩
      rw [take_of_length_le (by rw [length_append, accounts.recorded]; exact le_rfl)]
      exact sum
  · rw [told, sum, add_zero]
    rfl

/-- Another callback reports nothing. -/
theorem fired (accounts : h.Accounts n) {callback : Callback} (other : callback.read? = none) :
    (h.fired callback).Accounts n := by
  have same : (h.fired callback).reads = h.reads := by
    rw [reads_fired, other]
    exact append_nil _
  have receivedAt : (h.fired callback).receivedAt = h.receivedAt := by
    cases callback with
    | onRead n => cases other
    | _ => rfl
  refine ⟨?_, ?_, ?_⟩
  · rw [same, receivedAt]
    exact accounts.recorded
  · unfold Reports
    rw [same, receivedAt]
    exact accounts.reports
  · rw [same]
    exact accounts.total

end Accounts

end History

namespace View

variable {k : Int} {v v' : View} {cfg : Config} {rules : Rules} {exact' : Prop}

/-- What is received and not yet reported. -/
def unreported (v : View) : Int := (v.tasks.map Task.unreported).sum

/-- All that was received has been reported, but for what a goroutine has yet to begin with. -/
structure Reporting (v : View) : Prop where
  measured : ∀ c ∈ v.done, c.sqe.flag = .read → 0 ≤ c.res → c.data.length = c.res
  accounts : v.history.Accounts v.unreported

theorem unreported_of_none (none' : v.tasks = []) : v.unreported = 0 := by
  rw [unreported, none', map_nil, sum_nil]

namespace Reporting

variable {mem : VirtualMem.Ledger} {sq : Chains} {shut : List Int} {c : Cqe} {rest : List Cqe}
  {ops : List ConnOp} {x x' : Session}

/-- A receive is counted while no goroutine holds the connection. -/
theorem counted (reporting : v.Reporting) (none' : v.tasks = []) (first : v.done = c :: rest)
    (flag : c.sqe.flag = .read) (fine : 0 ≤ c.res)
    (received : (v.session mem sq shut).onKernelRead c = some x) : x.history.Accounts c.res := by
  have accounts := reporting.accounts
  rw [unreported_of_none none'] at accounts
  have measured := reporting.measured c (by rw [first]; exact mem_cons_self) flag fine
  obtain ⟨_, _, _, _, rfl⟩ := onKernelRead_eq received
  exact accounts.received measured

/-- A completion is handled and everything reported. -/
theorem prelude (reporting : v.Reporting) (tidy : v.Tidy k) (first : v.done = c :: rest)
    (fine : 0 ≤ c.res) (single : c.sqe.flag = .read → c.nonempty = true → False)
    (prelude : Session.Prelude cfg ops c (v.session mem sq shut) x) : x.history.Accounts 0 := by
  obtain ⟨⟨_, _, tasks, _⟩, read, _⟩ := tidy.alone first prelude.state.1
  change v.tasks = [] at tasks
  cases prelude with
  | reread state _ _ more _ => exact (single (read state) more).elim
  | worked state some' received called =>
    have still := calls_still called
    have counted := reporting.counted tasks first (read state) fine received
    exact counted.read.of_same still.word still.receivedAt still.delivered
  | wrote state sent called =>
    have still := calls_still called
    have accounts := reporting.accounts
    rw [unreported_of_none tasks] at accounts
    obtain ⟨_, _, _, _, rfl⟩ := onKernelWrite_eq sent
    have fired : (v.history.fired (.onWrite c.res)).Accounts 0 := accounts.fired rfl
    exact fired.of_same still.word still.receivedAt still.delivered

/-- Nothing is completed, and what is not yet reported is the same. -/
theorem of_same (reporting : v.Reporting) (done : ∀ c ∈ v'.done, c ∈ v.done)
    (word : v'.history.word = v.history.word)
    (receivedAt : v'.history.receivedAt = v.history.receivedAt)
    (delivered : v'.history.delivered = v.history.delivered)
    (tasks : v'.unreported = v.unreported) : v'.Reporting := by
  refine ⟨fun c member => reporting.measured c (done c member), ?_⟩
  rw [tasks]
  exact reporting.accounts.of_same word receivedAt delivered

/-- The kernel completes requests. -/
theorem completed (reporting : v.Reporting) {cqes : List Cqe}
    (measured : ∀ c ∈ cqes, c.sqe.flag = .read → 0 ≤ c.res → c.data.length = c.res)
    (done : v'.done = v.done ++ cqes) (word : v'.history.word = v.history.word)
    (receivedAt : v'.history.receivedAt = v.history.receivedAt)
    (delivered : v'.history.delivered = v.history.delivered)
    (tasks : v'.unreported = v.unreported) : v'.Reporting := by
  refine ⟨?_, ?_⟩
  · intro c member
    rw [done] at member
    rcases mem_append.mp member with old | added
    · exact reporting.measured c old
    · exact measured c added
  · rw [tasks]
    exact reporting.accounts.of_same word receivedAt delivered

/-- Every move keeps the account. -/
theorem move (single : ¬ rules.more) (tidy : v.Tidy k) (reporting : v.Reporting)
    (move : Move cfg rules exact' v v') : v'.Reporting := by
  cases move with
  | dropped first error =>
    refine reporting.of_same (fun c member => ?_) rfl rfl rfl rfl
    rw [first]
    exact mem_cons_of_mem _ member
  | @armed c rest mem sq shut ops x x' new first fine prelude armed calls sized spent more =>
    obtain ⟨⟨_, done, tasks, _⟩, _⟩ := tidy.alone first prelude.state.1
    have accounts := reporting.prelude tidy first fine
      (fun flag nonempty => single (more flag nonempty)) prelude
    have none' : (v.worked x' new).unreported = 0 := unreported_of_none tasks
    refine ⟨?_, ?_⟩
    · intro c member
      rw [show rest = [] from done] at member
      cases member
    · change x'.history.Accounts (v.worked x' new).unreported
      rw [none', armed.history]
      exact accounts
  | @spawned c rest mem sq shut x first some' state received =>
    obtain ⟨⟨_, done, tasks, _⟩, read, _⟩ := tidy.alone first (Or.inl state)
    have counted := reporting.counted tasks first (read state) some'.le received
    refine ⟨?_, ?_⟩
    · intro c member
      rw [show rest = [] from done] at member
      cases member
    · change x.history.Accounts ((v.tasks ++ [(⟨v.obj, c.res, false⟩ : Task)]).map _).sum
      rw [show v.tasks = [] from tasks, nil_append, map_singleton, sum_singleton]
      exact counted
  | @flushed c rest mem sq shut ops x x' first fine state flag sent called calls sized =>
    have still := calls_still called
    obtain ⟨_, _, _, _, rfl⟩ := onKernelWrite_eq sent
    have fired : (v.history.fired (.onWrite c.res)).Accounts v.unreported :=
      reporting.accounts.fired rfl
    refine ⟨?_, fired.of_same still.word still.receivedAt still.delivered⟩
    intro c member
    exact reporting.measured c (by rw [first]; exact mem_cons_of_mem _ member)
  | asyncArmed waiting armed sized =>
    refine reporting.of_same (fun c => id) ?_ ?_ ?_ rfl
    · exact congrArg History.word armed.history
    · exact congrArg History.receivedAt armed.history
    · exact congrArg History.delivered armed.history
  | @begun n mem sq shut waiting =>
    have accounts := reporting.accounts
    have pending : v.unreported = n := by
      simp [unreported, waiting, Task.unreported]
    rw [pending] at accounts
    exact ⟨reporting.measured, accounts.read⟩
  | called running called call sized =>
    have still := (call_method called).still
    exact reporting.of_same (fun c => id) still.word still.receivedAt still.delivered rfl
  | @returned n op running next =>
    refine reporting.of_same (fun c => id) rfl rfl rfl ?_
    have begun : v.unreported = 0 := by
      simp [unreported, running, Task.unreported]
    rw [begun]
    rfl
  | swept idle found => exact reporting.of_same (fun c => id) rfl rfl rfl rfl
  | received first flag fits apart =>
    refine reporting.completed ?_ rfl rfl rfl rfl rfl
    intro c member _ _
    rw [mem_singleton.mp member]
  | sent _ flag _ _ _ _ _ _ | closed _ flag _ =>
    refine reporting.completed ?_ rfl rfl rfl rfl rfl
    intro c member read
    rw [mem_singleton.mp member, flag] at read
    cases read
  | failed first error =>
    refine reporting.completed ?_ rfl ?_ ?_ ?_ rfl
    · exact fun c member _ fine => absurd (Cqe.failed_of_mem error member) (not_lt.mpr fine)
    all_goals split_ifs <;> rfl
  | cancelled =>
    refine reporting.completed ?_ rfl rfl rfl rfl rfl
    exact fun c member _ fine => absurd (Sqe.failed_of_cancelled member) (not_lt.mpr fine)

/-- A new connection has nothing to report. -/
theorem born (born : Born cfg rules exact' k v) : v.Reporting := by
  have fresh : ∀ {v : View}, v.Entrance k exact' → v.unreported = 0 ∧ v.history.Accounts 0 := by
    intro v entrance
    refine ⟨unreported_of_none entrance.idle.tasks, ?_⟩
    rw [entrance.history]
    exact ⟨rfl, fun i lt => absurd lt (Nat.not_lt_zero i), rfl⟩
  cases born with
  | entered entrance allowed =>
    obtain ⟨none', accounts⟩ := fresh entrance
    refine ⟨?_, ?_⟩
    · rw [entrance.idle.done]
      exact forall_mem_nil _
    · rw [none']
      exact accounts
  | @welcomed v mem sq shut ops x x' new entrance called armed calls sized spent =>
    obtain ⟨none', accounts⟩ := fresh entrance
    have still := calls_still called
    have fired : (v.history.fired .onAccept).Accounts 0 := accounts.fired rfl
    refine ⟨?_, ?_⟩
    · change ∀ c ∈ v.done, _
      rw [entrance.idle.done]
      exact forall_mem_nil _
    · change x'.history.Accounts v.unreported
      rw [none', armed.history]
      exact fired.of_same still.word still.receivedAt still.delivered

/-- What a connection leaves behind was reported. -/
theorem ends (single : ¬ rules.more) (tidy : v.Tidy k) (reporting : v.Reporting) {h : History}
    (ends : Ends cfg rules v h) : h.Reports := by
  have closed : ∀ {h : History} {n : Int} {err : Option Error}, h.Accounts n →
      History.Reports { h with word := h.word ++ [.onClose err], released := true } := by
    intro h n err accounts
    have fired : (h.fired (.onClose err)).Accounts n := accounts.fired rfl
    exact (fired.of_same rfl rfl rfl).reports
  cases ends with
  | eof _ _ _ _ | closed _ _ _ _ => exact closed reporting.accounts
  | failed first fine prelude allowed more =>
    exact closed (reporting.prelude tidy first fine
      (fun flag nonempty => single (more flag nonempty)) prelude)

end Reporting

end View

/-- No receive is reported with more data behind it. -/
def Rules.single : Rules := { more := False }

instance : Rules.single.Checked where
  call _ := isTrue trivial
  send _ _ := isTrue trivial
  sweep _ := isTrue trivial
  eof := isTrue trivial
  full := isTrue trivial
  failing := isTrue trivial
  more := isFalse id

/-- This lasts over every life. -/
theorem View.Reporting.lasting (cfg : Config) :
    Lasting cfg .single False (fun _ => View.Reporting) History.Reports where
  born := .born
  move tidy reporting move := reporting.move id tidy move
  ends tidy reporting ends := reporting.ends id tidy ends
  unheard := by
    rintro h ⟨_, _, word⟩ i lt
    have none' : h.reads = [] := by
      unfold History.reads
      rcases word with silent | ⟨_, err, only⟩
      · rw [silent]
        rfl
      · rw [only]
        rfl
    rw [none'] at lt
    exact absurd lt (Nat.not_lt_zero i)

namespace Worker

variable {w w' : Worker} {cfg : Config} {streams : Streams}

/-- In an orderly run in which no receive is reported with more data behind it, the numbers
`OnRead` was called with add up to what was received at each of its calls, and afterwards. -/
theorem run_reports_of_orderly (tcp : cfg.sendRecvMsg = false)
    (started : start cfg streams = some w) {ls : List Label} (ran : run step ls w = some w')
    (along : Along step (Orderly .single) ls w) :
    (∀ life < w'.nextLife, (w'.histories life).Reports) ∧
    ∀ k o, k ≠ w'.cfg.listener → w'.connections.lookup k = some o →
      (∀ t ∈ w'.tasksOf o, t.begun = true) →
      (w'.histories (w'.heap o).life).reads.sum =
        (w'.histories (w'.heap o).life).delivered.length := by
  have lives := run_lives (View.Reporting.lasting cfg) tcp started ran along
  refine ⟨?_, ?_⟩
  · intro life lt
    rcases lives.cases lt with ⟨k, o, _, _, rfl, reporting⟩ | silent | past
    · exact reporting.accounts.reports
    · intro i lt
      rw [History.reads, silent.word] at lt
      exact absurd lt (Nat.not_lt_zero i)
    · exact past
  · intro k o other found begun
    have reporting := lives.current other found
    have none' : (w'.view k o).unreported = 0 := by
      refine sum_eq_zero fun n member => ?_
      obtain ⟨t, running, rfl⟩ := mem_map.mp member
      rw [Task.unreported, begun t running]
      rfl
    have total := reporting.accounts.total
    rw [none', add_zero] at total
    exact total

/-- A connection is handed over, and two bytes and then one are received for it. The first
receive may be reported with more data behind it. -/
def receivedTwice (more : Bool) : List Label :=
  admission ++ ([.endBatch, .asyncWrite {}, .turn [] 1 .done, .peek, .endBatch, .asyncWrite {},
    .complete 0 2 more [1, 2] none, .turn [] 0 .done, .peek, .event {}, .endBatch, .asyncWrite {},
    .turn [] 1 .done, .peek, .endBatch, .asyncWrite {}, .complete 1 1 false [3] none,
    .turn [] 0 .done, .peek, .event {}] : List Label)

theorem run_reports_of_orderly_twice : ∃ w w', start (plain .consumer) keepNothing = some w ∧
    run step (receivedTwice false) w = some w' ∧ (w'.histories 0).reads = [2, 1] ∧
      (w'.histories 0).Reports := by
  obtain ⟨w, w', started, ran, along, alive, reads⟩ : ∃ w w',
      start (plain .consumer) keepNothing = some w ∧
      run step (receivedTwice false) w = some w' ∧
      Along step (Orderly .single) (receivedTwice false) w ∧ 0 < w'.nextLife ∧
      (w'.histories 0).reads = [2, 1] := exists_run (by decide)
  exact ⟨w, w', started, ran, reads, (run_reports_of_orderly rfl started ran along).1 0 alive⟩

/-- The first two bytes are not reported when the third is. -/
theorem run_not_reports : ∃ w w', start (plain .consumer) keepNothing = some w ∧
    Along step (Orderly {}) (receivedTwice true) w ∧ run step (receivedTwice true) w = some w' ∧
      0 < w'.nextLife ∧ (w'.histories 0).word = [.onAccept, .onRead 1] ∧
      (w'.histories 0).delivered = [1, 2, 3] ∧ ¬ (w'.histories 0).Reports := by
  obtain ⟨w, w', started, ran, along, alive, word, delivered, receivedAt⟩ : ∃ w w',
      start (plain .consumer) keepNothing = some w ∧
      run step (receivedTwice true) w = some w' ∧ Along step (Orderly {}) (receivedTwice true) w ∧
      0 < w'.nextLife ∧ (w'.histories 0).word = [.onAccept, .onRead 1] ∧
      (w'.histories 0).delivered = [1, 2, 3] ∧ (w'.histories 0).receivedAt = [3] :=
    exists_run (by decide)
  refine ⟨w, w', started, along, ran, alive, word, delivered, fun reports => ?_⟩
  have reads : (w'.histories 0).reads = [1] := by
    rw [History.reads, word]
    rfl
  obtain ⟨n, found, sum⟩ := reports 0 (by rw [reads]; decide)
  rw [receivedAt] at found
  rw [reads] at sum
  cases found
  exact absurd sum (by decide)

end Worker

end Gain
