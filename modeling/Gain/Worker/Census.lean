import Gain.Foundation.Table
import Gain.Worker.Callbacks

/-! # How many connections there are

The counter of a connection manager is the number of its entries in every run, as far
as an `int32` can hold it. In an orderly run the entries are the connections for which
`OnAccept` has been fired and `OnClose` has not, and the listener of a shard.
-/

namespace Gain

open List

namespace Worker

variable {w w' : Worker} {o : Nat} {key fd : Int} {env : Env} {cqe : Cqe} {err : Option Error}
  {cfg : Config} {streams : Streams}

/-- The counter is the number of entries, as far as an `int32` can hold it. -/
def Counted (w : Worker) : Prop :=
  w.connectionsCount = (w.connections.keys.length : Int).bmod (2 ^ 32)

namespace Counted

variable (counted : w.Counted)
include counted

theorem get (sane : w.Sane) (got : w.get key fd = (o, w')) : w'.Counted := by
  rcases get_cases w sane.poolBound key fd with ⟨o', found, same⟩ | ⟨o', base, w₁, entered, same⟩
  · cases got.symm.trans same
    exact counted
  · cases got.symm.trans same
    have missing : key ∉ w.connections := AList.lookup_eq_none.mp entered.absent
    rw [Counted, entered.frame]
    change addInt32 w.connectionsCount 1 = _
    rw [counted, addInt32_bmod]
    exact congrArg (fun n : Nat => (n : Int).bmod _) (Table.length_insert missing).symm

theorem released (released : Released w key o w') : w'.Counted := by
  have fewer := Table.length_erase (Table.mem_of_lookup released.found)
  have less : (w.connections.keys.length : Int) + -1 = (w.connections.erase key).keys.length := by
    omega
  rw [Counted, released.frame]
  change addInt32 w.connectionsCount (-1) = _
  rw [counted, addInt32_bmod, less]

theorem closeConn (sane : w.Sane) (found : w.connections.lookup key = some o) {syscallClose : Bool}
    {ops : List ConnOp} (done : w.closeConn o syscallClose err ops = some w') : w'.Counted := by
  have ended : (w.setSession ((w.session o).ended syscallClose err)).Counted := counted
  exact ended.released (sane.ended found done)

theorem addressed (sane : w.Sane) (addressed : Addressed w fd o w') : w'.Counted := by
  obtain @⟨w₁, _, _, _, got⟩ := addressed
  have entered : w₁.Counted := counted.get sane got
  exact entered

theorem rearmed (sane : w.Sane) (rearmed : Rearmed w o w') : w'.Counted := by
  obtain @⟨w₁, got⟩ := rearmed
  have prepared : w.prepareAccept.Counted := counted
  have entered : w₁.Counted := prepared.get sane.prepareAccept got
  exact entered

theorem welcomed {sqe : Nat → Bool} (welcomed : Welcomed w env sqe o err w') : w'.Counted := by
  obtain ⟨x, _, rfl⟩ := welcomed.acts
  exact counted

theorem handedOver (sane : w.Sane) (handed : HandedOver w env fd err w') : w'.Counted := by
  obtain ⟨entered, welcomed⟩ := handed
  exact (counted.addressed sane entered).welcomed welcomed

theorem served (sane : w.Sane)
    (found : w.connections.lookup key = some o) (served : Served w env cqe o w') : w'.Counted := by
  cases served with
  | eof _ _ ended | closed _ _ ended | unknown _ ended => exact counted.closeConn sane found ended
  | armed _ _ | spawned _ _ _ _ | flushed _ _ _ _ | ignored _ _ _ => exact counted
  | @failed x x' err w' prelude arming ended =>
    have armed := sane.acts (sane.bound found) (prelude.acts.trans arming.acts)
    have before : (w.setSession x').Counted := counted
    exact before.closeConn armed found ended

theorem accepted (sane : w.Sane) (accepted : Accepted w env cqe err w') : w'.Counted := by
  cases accepted with
  | refused _ _ => exact counted
  | failed _ _ _ rearmed entered =>
    exact (counted.rearmed sane rearmed).addressed (sane.rearmed rearmed).1 entered
  | welcomed _ rearmed entered welcomed =>
    have armed := counted.rearmed sane rearmed
    exact (armed.addressed (sane.rearmed rearmed).1 entered).welcomed welcomed

/-- An event keeps the count. -/
theorem handled (sane : w.Sane) (handled : Handled w env cqe w') : w'.Counted := by
  cases handled with
  | looked _ _ got => exact counted.get sane got
  | dropped _ _ | skipped _ _ _ _ => exact counted
  | @announced err w₁ _ _ _ handed =>
    have after : w₁.Counted := counted.handedOver sane handed
    split_ifs
    · obtain ⟨shut, stopped⟩ := stop_eq w₁
      rw [stopped]
      exact after
    · exact after
  | served _ _ got _ served =>
    obtain ⟨sane₁, found⟩ := sane.get got
    exact (counted.get sane got).served sane₁ found served
  | @accepted o err w₁ w₂ w' _ _ got _ accepted ended =>
    obtain ⟨sane₁, found⟩ := sane.get got
    obtain ⟨sane₂, keeps⟩ := sane₁.accepted accepted
    have counted₂ : w₂.Counted := (counted.get sane got).accepted sane₁ accepted
    cases err with
    | none =>
      cases ended
      exact counted₂
    | some err => exact counted₂.closeConn sane₂ (keeps found) ended

theorem executed {q : Sqe} {res : Int} {data : List UInt8}
    (executed : Executed w q res data w') : w'.Counted := by
  cases executed <;> exact counted

/-- Every step keeps the count. -/
theorem step (sane : w.Sane) {label : Label} (stepped : Stepped w label w') : w'.Counted := by
  cases stepped with
  | shutdown | paced _ _ _ | handOff _ _ _ _ _ | asyncWrite _ _ _ | taskBegin _ | taskCall _ _
  | taskEnd _ _ => exact counted
  | @turn order chains result phase shut _ _ _ =>
    obtain ⟨_, _, _, _, _, _, _, swept⟩ := shutdownHandler_frame w order
    rw [swept]
    exact counted
  | @event env left cqe cq w' phase first handled =>
    have popped : Sane { w with phase := .events left, cq := cq } := { sane with }
    have before : Counted { w with phase := .events left, cq := cq } := counted
    exact before.handled popped handled
  | @newConn env fd rest err w' phase first handed =>
    have taken : Sane { w with connQueue := rest } := { sane with }
    have before : Counted { w with connQueue := rest } := counted
    exact before.handedOver taken handed
  | completed _ executed _ => exact (counted.executed executed :)

end Counted

theorem start_counted (tcp : cfg.sendRecvMsg = false) (started : start cfg streams = some w) :
    w.Counted := by
  have initial : (init cfg streams).Counted := Int.zero_bmod.symm
  rcases start_eq tcp started with ⟨_, rfl⟩ | ⟨_, o, w₁, rearmed, rfl⟩
  · exact initial
  · have armed : w₁.Counted := initial.rearmed (init_sane tcp streams) rearmed
    exact armed

theorem run_counted (tcp : cfg.sendRecvMsg = false) (started : start cfg streams = some w)
    {ls : List Label} (ran : run step ls w = some w') : w'.Counted := by
  have preserved : ∀ s l s', step s l = some s' → s.Sane ∧ s.Counted → s'.Sane ∧ s'.Counted := by
    rintro s l s' done ⟨sane, counted⟩
    have stepped := step_stepped sane.tcp done
    exact ⟨sane.step stepped, counted.step sane stepped⟩
  exact (run_preserves _ preserved ran ⟨start_sane tcp started, start_counted tcp started⟩).2

end Worker

namespace Callback

def ofClose : Callback → Bool
  | onClose _ => true
  | _ => false

/-- `OnAccept` has been fired and `OnClose` has not. -/
def Current (word : List Callback) : Prop :=
  onAccept ∈ word ∧ ∀ callback ∈ word, callback.ofClose = false

instance : DecidablePred Current :=
  fun word => inferInstanceAs (Decidable (onAccept ∈ word ∧ ∀ c ∈ word, c.ofClose = false))

variable {word : List Callback}

theorem not_current_nil : ¬ Current [] := fun current => absurd current.1 not_mem_nil

theorem Opened.current (opened : Opened word) : Current word := by
  obtain ⟨middle, rfl, data⟩ := opened
  refine ⟨mem_cons_self, fun callback member => ?_⟩
  rcases mem_cons.mp member with rfl | later
  · rfl
  · have kind := data callback later
    cases callback with
    | onRead n | onWrite n => rfl
    | onAccept | onClose err => exact kind.elim

theorem Closed.not_current (closed : Closed word) : ¬ Current word := by
  obtain ⟨opened, err, _, rfl⟩ := closed
  intro current
  cases current.2 (onClose err) (mem_append_right _ (mem_singleton_self _))

end Callback

namespace Worker

variable {w w' : Worker} {cfg : Config} {streams : Streams} {ls : List Label}

/-- The lives in which `OnAccept` has been fired and `OnClose` has not. -/
def currentLives (w : Worker) : List Nat :=
  (List.range w.nextLife).filter fun life => Callback.Current (w.histories life).word

/-- In an orderly run the entries apart from the listener are the current connections. -/
theorem run_lives_current (tcp : cfg.sendRecvMsg = false) (started : start cfg streams = some w)
    (ran : run step ls w = some w') (along : Along step (Orderly .welcoming) ls w) :
    Lives (fun _ v => Callback.Opened v.history.word)
      (fun h => h.word = [] ∨ Callback.Closed h.word) w' := by
  have lasting : Lasting cfg .welcoming False (fun _ v => Callback.Opened v.history.word)
      (fun h => h.word = [] ∨ Callback.Closed h.word) := by
    refine ⟨View.opened_of_born id, fun _ opened move => View.opened_of_move opened move,
      fun _ opened ends => Or.inr (View.closed_of_ends opened ends), ?_⟩
    rintro h ⟨_, _, silent | ⟨failing, _⟩⟩
    · exact Or.inl silent
    · exact failing.elim
  exact run_lives lasting tcp started ran along

/-- Every entry is one current life. -/
theorem length_currentLives (sane : w.Sane)
    (lives : Lives (fun _ v => Callback.Opened v.history.word)
      (fun h => h.word = [] ∨ Callback.Closed h.word) w) :
    (w.connections.erase w.cfg.listener).keys.length = w.currentLives.length := by
  have split : ∀ {k o}, (w.connections.erase w.cfg.listener).lookup k = some o →
      k ≠ w.cfg.listener ∧ w.connections.lookup k = some o := by
    intro k o found
    have other : k ≠ w.cfg.listener := by
      rintro rfl
      rw [AList.lookup_erase] at found
      cases found
    rw [AList.lookup_erase_ne other] at found
    exact ⟨other, found⟩
  apply Table.length_eq_of_marked (f := fun o => (w.heap o).life)
  · intro k k' o o' first second same
    exact sane.lifeInj (split first).2 (split second).2 same
  · intro k o found
    obtain ⟨other, registered⟩ := split found
    exact ⟨sane.lives o (sane.bound registered), (lives.current other registered).current⟩
  · intro life below current
    by_contra unregistered
    have ceased : ∀ k o, w.connections.lookup k = some o → (w.heap o).life ≠ life := by
      intro k o found same
      by_cases here : k = w.cfg.listener
      · subst here
        have silent := (lives.listener o found).word
        rw [same] at silent
        rw [silent] at current
        exact Callback.not_current_nil current
      · refine unregistered ⟨k, o, ?_, same⟩
        rw [AList.lookup_erase_ne here]
        exact found
    rcases lives.past life below ceased with silent | closed
    · rw [silent] at current
      exact Callback.not_current_nil current
    · exact closed.not_current current

/-- In an orderly run the worker reports its current connections. -/
theorem run_activeConnections (tcp : cfg.sendRecvMsg = false)
    (started : start cfg streams = some w) (ran : run step ls w = some w')
    (along : Along step (Orderly .welcoming) ls w) (few : w'.connections.keys.length < 2 ^ 31) :
    w'.activeConnections = w'.currentLives.length := by
  have regular : w'.Regular .welcoming := run_regular tcp started ran along
  have counted : w'.connectionsCount = w'.connections.keys.length :=
    Eq.trans (run_counted tcp started ran) (bmod_eq_iff.mpr few)
  have census := length_currentLives regular.sane (run_lives_current tcp started ran along)
  unfold activeConnections
  cases kind : w'.cfg.kind with
  | consumer =>
    have missing : w'.cfg.listener ∉ w'.connections :=
      AList.lookup_eq_none.mp (regular.consumer kind).1
    rw [AList.keys_erase, erase_of_not_mem (mt AList.mem_keys.mpr missing)] at census
    rw [counted, census]
  | shard =>
    obtain ⟨o, found⟩ := regular.listening id kind
    have fewer := Table.length_erase (Table.mem_of_lookup found)
    change w'.connectionsCount - 1 = (w'.currentLives.length : Int)
    omega

end Worker

end Gain
