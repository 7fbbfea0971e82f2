import ContentTables.Proofs.Store.Discipline
import ContentTables.Store.Run
import Mathlib.Logic.Relation

/-!
# Calls that run at the same time

Any number of calls are under way, each with what is left of its program, and at every step one of
them performs its next effect. Effects on memory happen as `World.answer` has them. A statement may
fail, and then it changes nothing; the writes that succeed are counted, and a `Timeline` says what
the database gives for each statement after so many of them.

* `Timeline`, `Timeline.database` : such a database, with the number of writes as its state;
* `Thread`, `System` : calls with the rest of their programs, and what they share;
* `System.Step` : a new call, the answer to an effect, a statement that fails, or a write. Which
  writes there can be is left to `writes`;
* `System.turn` : the step of one thread when nothing fails;
* `Discipline.Obeyed.of_effect` : when the next effect of one thread is as the discipline has it, all
  threads obey it afterwards as before.
-/

namespace ContentTables

abbrev Timeline := Nat → Statement → List Row

def Timeline.database (timeline : Timeline) : Database Nat where
  execute n _ := (.ok default, n + 1)
  fetch n s := (.ok (timeline n s), n)

structure Thread (κ ρ : Type) where
  call : κ
  rest : Program ρ

structure System (κ ρ : Type) where
  world : World Nat
  threads : List (Thread κ ρ)

namespace System

variable {κ ρ : Type}

/-- The number of writes so far. -/
def time (s : System κ ρ) : Nat := s.world.database

/-- One more call, its whole program ahead of it. -/
def start (program : κ → Program ρ) (call : κ) (s : System κ ρ) : System κ ρ :=
  { s with threads := s.threads ++ [⟨call, program call⟩] }

/-- A thread has come to the rest of its program, in a world that it may have changed. -/
def advance (s : System κ ρ) (i : Nat) (call : κ) (world : World Nat) (rest : Program ρ) :
    System κ ρ :=
  ⟨world, s.threads.set i ⟨call, rest⟩⟩

/-- One step of the thread `i`, or the start of a call. -/
inductive Step (timeline : Timeline) (program : κ → Program ρ) (writes : Nat → κ → Prop) :
    System κ ρ → System κ ρ → Prop
  | start (s : System κ ρ) (call : κ) : Step timeline program writes s (s.start program call)
  | answer {s : System κ ρ} {i : Nat} {call : κ} {e : Effect} {next : e.Answer → Program ρ}
    (hthread : s.threads[i]? = some ⟨call, .perform e next⟩) (hwrite : ∀ st, e ≠ .execute st) :
    Step timeline program writes s (s.advance i call (s.world.answer timeline.database e).2
      (next (s.world.answer timeline.database e).1))
  | fetchFails {s : System κ ρ} {i : Nat} {call : κ} {st : Statement}
    {next : (Effect.fetch st).Answer → Program ρ}
    (hthread : s.threads[i]? = some ⟨call, .perform (.fetch st) next⟩) (fault : BackendFault) :
    Step timeline program writes s (s.advance i call s.world (next (.error fault)))
  | executeFails {s : System κ ρ} {i : Nat} {call : κ} {st : Statement}
    {next : (Effect.execute st).Answer → Program ρ}
    (hthread : s.threads[i]? = some ⟨call, .perform (.execute st) next⟩) (fault : BackendFault) :
    Step timeline program writes s (s.advance i call s.world (next (.error fault)))
  | write {s : System κ ρ} {i : Nat} {call : κ} {st : Statement}
    {next : (Effect.execute st).Answer → Program ρ}
    (hthread : s.threads[i]? = some ⟨call, .perform (.execute st) next⟩)
    (hwrites : writes s.time call) (written : Written) :
    Step timeline program writes s
      (s.advance i call { s.world with database := s.time + 1 } (next (.ok written)))

/-- Any number of steps. -/
def Steps (timeline : Timeline) (program : κ → Program ρ) (writes : Nat → κ → Prop) :
    System κ ρ → System κ ρ → Prop :=
  Relation.ReflTransGen (Step timeline program writes)

/-- The thread `i` performs its next effect, and nothing fails. -/
def turn (timeline : Timeline) (s : System κ ρ) (i : Nat) : System κ ρ :=
  match s.threads[i]? with
  | some ⟨call, .perform e next⟩ =>
    let (a, world) := s.world.answer timeline.database e
    s.advance i call world (next a)
  | _ => s

theorem step_turn_of_read {timeline : Timeline} {program : κ → Program ρ}
    {writes : Nat → κ → Prop} {s : System κ ρ} {i : Nat} {call : κ} {e : Effect}
    {next : e.Answer → Program ρ} (hthread : s.threads[i]? = some ⟨call, .perform e next⟩)
    (he : ∀ st, e ≠ .execute st) : Step timeline program writes s (s.turn timeline i) := by
  unfold turn
  rw [hthread]
  exact .answer hthread he

theorem steps_turn {timeline : Timeline} {program : κ → Program ρ} {writes : Nat → κ → Prop}
    {s : System κ ρ} {i : Nat}
    (hwrites : ∀ th : Thread κ ρ, s.threads[i]? = some th → writes s.time th.call) :
    Steps timeline program writes s (s.turn timeline i) := by
  unfold turn
  split
  · rename_i call e next hthread
    apply Relation.ReflTransGen.single
    cases e with
    | execute st => exact .write hthread (hwrites _ hthread) default
    | _ => exact .answer hthread nofun
  · exact .refl

end System

/-! ## Threads -/

section Places
variable {κ ρ : Type} {threads : List (Thread κ ρ)} {th th' : Thread κ ρ} {i j : Nat}

theorem thread_of_append (h : (threads ++ [th])[j]? = some th') :
    threads[j]? = some th' ∨ j = threads.length ∧ th' = th := by
  rw [List.getElem?_append] at h
  split at h
  · exact Or.inl h
  · rw [List.getElem?_singleton] at h
    split at h
    · exact Or.inr ⟨by omega, (Option.some.inj h).symm⟩
    · exact absurd h nofun

theorem thread_of_set (h : (threads.set i th)[j]? = some th') :
    j ≠ i ∧ threads[j]? = some th' ∨ j = i ∧ th' = th := by
  rw [List.getElem?_set] at h
  split at h
  · rename_i hij
    split at h
    · exact Or.inr ⟨hij.symm, (Option.some.inj h).symm⟩
    · exact absurd h nofun
  · rename_i hij
    exact Or.inl ⟨fun hji => hij hji.symm, h⟩

end Places

/-! ## Threads and their discipline -/

section Threads
variable {ν κ ρ : Type} {d : Discipline ν} {post : Nat → κ → ρ → ν → Prop}

/-- Every thread obeys the discipline; what its result has to be may depend on the call, and on the
place of the thread. -/
def Discipline.Obeyed (d : Discipline ν) (post : Nat → κ → ρ → ν → Prop)
    (threads : List (Thread κ ρ)) (v : ν) : Prop :=
  ∀ i (th : Thread κ ρ), threads[i]? = some th → th.rest.Obeys d (post i th.call) v

theorem Discipline.Obeyed.of_effect {threads : List (Thread κ ρ)} {v w : ν} {i : Nat} {call : κ}
    {e : Effect} {next : e.Answer → Program ρ} {a : e.Answer} (h : d.Obeyed post threads v)
    (hv : d.invariant v) (hthread : threads[i]? = some ⟨call, .perform e next⟩)
    (heffect : d.effect v e a w) :
    d.invariant w ∧ d.rely v w ∧ d.Obeyed post (threads.set i ⟨call, next a⟩) w := by
  obtain ⟨hmay, hnext⟩ := h i _ hthread v hv (d.rely_refl v)
  obtain ⟨hw, hvw⟩ := d.sound hv hmay heffect
  refine ⟨hw, hvw, fun j th hj => ?_⟩
  rcases thread_of_set hj with ⟨_, hj⟩ | ⟨rfl, rfl⟩
  · exact (h j th hj).of_rely hvw
  · exact hnext a w heffect

theorem Discipline.Obeyed.start {threads : List (Thread κ ρ)} {v : ν} {th : Thread κ ρ}
    (h : d.Obeyed post threads v) (hnew : th.rest.Obeys d (post threads.length th.call) v) :
    d.Obeyed post (threads ++ [th]) v := by
  intro i th' hi
  rcases thread_of_append hi with hi | ⟨rfl, rfl⟩
  · exact h i th' hi
  · exact hnew

end Threads

end ContentTables
