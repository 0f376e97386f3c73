import Mathlib.Data.List.Chain
import WineGlass.Coop.Answers

/-!
# Polls

A poll is a `WaitForSingleObject` with no timeout. It gives the processor to any other thread that
is ready, and is called again when its own thread runs next: nothing tells the second call from the
first. `polling` is not in the source: it notes the poll that a thread has yielded in.
-/

namespace WineGlass.Polls

open Runs Coop

structure Sys where
  desk : Desk
  polling : Slot → Option U32

def Sys.start (d : Desk) : Sys := ⟨d, fun _ => none⟩

/-- A poll, or any other call, which may write the fields of its thread. -/
inductive Action
  | poll (h : U32) (now : U64)
  | other (c : Call) (f : Stamp → Stamp)

/-- What a poll returns, and whether it took the event. -/
inductive Event
  | polled (i : Slot) (h : U32) (answer : Answer) (consumed : Bool)
  | nothing
  deriving DecidableEq

def isPoll : Call → Bool
  | .waitSingle _ timeout _ => timeout == 0
  | _ => false

/-- A thread in a poll does nothing but poll again. The user may pause the engine. -/
def allows (h : U32) : Action → Bool
  | .poll x _ => x == h
  | .other .tick _ | .other (.pause _) _ => true
  | .other .. => false

def Sys.poll (s : Sys) : Option U32 := s.desk.host.engine.current.bind s.polling

def Sys.act (s : Sys) : Action → Option (Sys × Event)
  | .poll h now =>
    s.desk.host.engine.current.map fun i =>
      let r := s.desk.waitForSingleObject h 0 now
      (⟨r.2, Function.update s.polling i (if r.1.isNone then some h else none)⟩,
        .polled i h r.1 (s.desk.host.signalled h && !r.2.host.signalled h))
  | .other c f =>
    if isPoll c then none
    else
      let d := s.desk.stamp f
      some (⟨{ d with host := d.host.call c }, s.polling⟩, .nothing)

def Sys.step (s : Sys) (a : Action) : Option (Sys × Event) :=
  if s.poll.all fun h => allows h a then s.act a else none

-- ---------------------------------------------------------------------------
-- Polls that return
-- ---------------------------------------------------------------------------

def Event.answer (i : Slot) : Event → Option Answer
  | .polled j _ answer _ => if j = i then some answer else none
  | .nothing => none

/-- What the polls of thread `i` have returned, one call after another. -/
def polls (i : Slot) (tr : List (Action × Event)) : List Answer :=
  tr.filterMap fun x => x.2.answer i

/-- A poll that has yielded is answered the next time its thread runs. An answer is one of two, and
takes an event only as the first. -/
structure Returns (tr : List (Action × Event)) : Prop where
  prompt (i : Slot) : (polls i tr).IsChain fun r r' => r = none → r' ≠ none
  answers : .polled i h r c ∈ tr.map Prod.snd → r = none ∨ r = some 0 ∨ r = some waitTimeout
  takes : .polled i h r true ∈ tr.map Prod.snd → r = some 0

/-- When a poll runs again, its object is signalled or no other thread is ready. -/
def Meets (s : Sys) : Action → Prop
  | .poll h _ => s.poll.isSome → s.desk.host.isSignalled h = true ∨
      s.desk.host.engine.otherReady = false
  | .other .. => True

instance (s : Sys) (a : Action) : Decidable (Meets s a) := by
  cases a <;> unfold Meets <;> infer_instance

-- ---------------------------------------------------------------------------
-- One poll
-- ---------------------------------------------------------------------------

variable {d : Desk} {s s' : Sys} {i : Slot} {h : U32} {now : U64}

/-- A poll is answered, or yields and leaves the events alone. -/
theorem poll_cases (hc : d.host.engine.current = some i) (h : U32) (now : U64) :
    let r := d.waitForSingleObject h 0 now
    (d.host.isSignalled h = true ∨ d.host.engine.otherReady = false) ∧
      (r.1 = some 0 ∨ r.1 = some waitTimeout ∧ r.2.host.signalled = d.host.signalled) ∨
    d.host.isSignalled h = false ∧ d.host.engine.otherReady = true ∧ r.1 = none ∧
      r.2.host.signalled = d.host.signalled := by
  unfold Desk.waitForSingleObject
  cases hs : d.host.isSignalled h with
  | true => exact .inl ⟨.inl rfl, .inl rfl⟩
  | false =>
    cases ho : d.host.engine.otherReady with
    | false => exact .inl ⟨.inr rfl, .inr ⟨rfl, rfl⟩⟩
    | true =>
      have hcm : (d.mark h 0).host.engine.current = some i := by
        rw [mark_host]
        exact setWait_current.trans hc
      refine .inr ⟨rfl, rfl, ?_, ?_⟩
      · simp only [Bool.false_eq_true, if_false, if_true, (CondVars.yield_runs hcm).1]
      · simp only [Bool.false_eq_true, if_false, if_true, Desk.withEngine, mark_host]

theorem step_act (h : s.step a = some (s', e)) : s.act a = some (s', e) := by
  unfold Sys.step at h
  split at h
  · exact h
  · cases h

-- ---------------------------------------------------------------------------
-- Runs
-- ---------------------------------------------------------------------------

/-- The notes tell whether the last poll of a thread has yielded. -/
def Noted (tr : List (Action × Event)) (s : Sys) : Prop :=
  ∀ i, (polls i tr).getLast? = some none ↔ (s.polling i).isSome

variable {tr : List (Action × Event)}

theorem polls_snoc (tr : List (Action × Event)) (i : Slot) (a : Action) (e : Event) :
    polls i (tr ++ [(a, e)]) = polls i tr ++ (e.answer i).toList := by
  rw [polls, List.filterMap_append]
  cases he : e.answer i with
  | none => simp [he, polls]
  | some r => simp [he, polls]

theorem step_noted (hn : Noted tr s) (hs : s.step a = some (s', e)) :
    Noted (tr ++ [(a, e)]) s' := by
  rintro j
  rw [polls_snoc]
  have hact := step_act hs
  cases a with
  | poll h now =>
    obtain ⟨i, -, heq⟩ := Option.map_eq_some_iff.1 hact
    obtain ⟨rfl, rfl⟩ := Prod.mk.inj heq
    by_cases hj : j = i
    · subst hj
      simp only [Event.answer, if_true, Option.toList_some, Function.update_self,
        List.getLast?_concat, Option.some.injEq]
      cases (s.desk.waitForSingleObject h 0 now).1 <;> simp
    · simp only [Event.answer, if_neg (Ne.symm hj), Option.toList_none, List.append_nil,
        Function.update_of_ne hj]
      exact hn j
  | other c f =>
    simp only [Sys.act] at hact
    split at hact
    · cases hact
    · obtain ⟨rfl, rfl⟩ := Prod.mk.inj (Option.some.inj hact)
      simp only [Event.answer, Option.toList_none, List.append_nil]
      exact hn j

/-- A step keeps the polls in order exactly when it meets the condition. -/
theorem step_returns (hn : Noted tr s) (hr : Returns tr) (hs : s.step a = some (s', e)) :
    Returns (tr ++ [(a, e)]) ↔ Meets s a := by
  have hact := step_act hs
  cases a with
  | other c f =>
    simp only [Sys.act] at hact
    split at hact
    · cases hact
    · obtain ⟨rfl, rfl⟩ := Prod.mk.inj (Option.some.inj hact)
      refine iff_of_true ⟨fun i => ?_, fun h => ?_, fun h => ?_⟩ trivial
      · rw [polls_snoc]
        simp only [Event.answer, Option.toList_none, List.append_nil]
        exact hr.prompt i
      · exact hr.answers (by simpa using h)
      · exact hr.takes (by simpa using h)
  | poll h now =>
    obtain ⟨i, hc, heq⟩ := Option.map_eq_some_iff.1 hact
    obtain ⟨rfl, rfl⟩ := Prod.mk.inj heq
    have hpoll : s.poll = s.polling i := by rw [Sys.poll, hc, Option.bind_some]
    have hcases := poll_cases hc h now
    generalize s.desk.waitForSingleObject h 0 now = r at hcases ⊢
    constructor
    · rintro ⟨hprompt, -, -⟩ hsome
      rw [hpoll, ← hn i] at hsome
      obtain ⟨hmeets, -⟩ | ⟨-, -, hnone, -⟩ := hcases
      · exact hmeets
      · have hchain := hprompt i
        rw [polls_snoc] at hchain
        simp only [Event.answer, if_true, Option.toList_some] at hchain
        have hlink := (List.isChain_append.1 hchain).2.2 none hsome r.1 rfl rfl
        exact absurd hnone hlink
    · intro hm
      refine ⟨fun j => ?_, fun hmem => ?_, fun hmem => ?_⟩
      · rw [polls_snoc]
        by_cases hj : i = j
        · subst hj
          simp only [Event.answer, if_true, Option.toList_some]
          refine List.isChain_append.2 ⟨hr.prompt i, List.isChain_singleton _, ?_⟩
          rintro _ hlast _ ⟨⟩ rfl
          have hsome := (hn i).1 hlast
          rw [← hpoll] at hsome
          obtain ⟨-, h0 | ⟨hto, -⟩⟩ | ⟨hsig, ho, -, -⟩ := hcases
          · rw [h0]
            nofun
          · rw [hto]
            nofun
          · rcases hm hsome with h1 | h1
            · rw [h1] at hsig
              cases hsig
            · rw [h1] at ho
              cases ho
        · simp only [Event.answer, if_neg hj, Option.toList_none, List.append_nil]
          exact hr.prompt j
      · rw [List.map_append, List.mem_append] at hmem
        rcases hmem with hmem | hmem
        · exact hr.answers hmem
        · obtain ⟨-, -, rfl, -⟩ := Event.polled.inj (List.mem_singleton.1 hmem)
          obtain ⟨-, h0 | ⟨hto, -⟩⟩ | ⟨-, -, hnone, -⟩ := hcases
          · exact .inr (.inl h0)
          · exact .inr (.inr hto)
          · exact .inl hnone
      · rw [List.map_append, List.mem_append] at hmem
        rcases hmem with hmem | hmem
        · exact hr.takes hmem
        · obtain ⟨-, rfl, rfl, htake⟩ := Event.polled.inj (List.mem_singleton.1 hmem)
          have hdown : ¬ r.2.host.signalled = s.desk.host.signalled := by
            rintro heq
            rw [heq] at htake
            simp at htake
          obtain ⟨-, h0 | ⟨-, heq⟩⟩ | ⟨-, -, -, heq⟩ := hcases
          · exact h0
          · exact absurd heq hdown
          · exact absurd heq hdown

theorem start_noted (d : Desk) : Noted [] (.start d) := fun _ => iff_of_false nofun nofun

theorem run_noted (h : Run Sys.step ok (.start d) tr s) : Noted tr s :=
  h.invariant (start_noted d) fun hn _ hs => step_noted hn hs

theorem start_returns : Returns [] := ⟨fun _ => .nil, nofun, nofun⟩

theorem Returns.before (h : Returns (tr ++ [(a, e)])) : Returns tr := by
  have hmem : ∀ {x : Event}, x ∈ tr.map Prod.snd → x ∈ (tr ++ [(a, e)]).map Prod.snd := by
    intro x hx
    rw [List.map_append]
    exact List.mem_append_left _ hx
  constructor
  case prompt =>
    intro i
    have hchain := h.prompt i
    rw [polls_snoc] at hchain
    exact (List.isChain_append.1 hchain).1
  case answers =>
    intro i x r c hx
    exact h.answers (hmem hx)
  case takes =>
    intro i x r hx
    exact h.takes (hmem hx)

/-- The runs that meet the condition all along are those in which every poll returns, from whatever
state and whoever is ready. -/
theorem polls_law (d : Desk) (tr : List (Action × Event)) (s : Sys) :
    Run Sys.step Meets (.start d) tr s ↔ Run Sys.step anyStep (.start d) tr s ∧ Returns tr := by
  constructor
  · intro h
    refine ⟨h.mono fun _ _ _ => trivial, ?_⟩
    induction h with
    | nil => exact start_returns
    | snoc h hok hs ih => exact (step_returns (run_noted h) ih hs).2 hok
  · rintro ⟨h, hr⟩
    induction h with
    | nil => exact .nil
    | @snoc tr' s a s' e h _ hs ih =>
      have hprev := hr.before
      exact .snoc (ih hprev) ((step_returns (run_noted h) hprev hs).1 hr) hs

/-- A program with its main thread only, and no event set. -/
def fresh : Desk := ⟨.load 0x20000000 .zero false, fun _ => ⟨0, 0⟩⟩

/-- Two threads that poll two events hand the processor back and forth. -/
theorem polls_forever : ¬ ∀ tr s, Run Sys.step anyStep (.start fresh) tr s → Returns tr := by
  intro hall
  have hexec : (exec Sys.step anyStep (.start fresh)
      [.other (.create 0x401000 0 0 none) id, .poll 0x200 0, .poll 0x201 0, .poll 0x200 0,
        .poll 0x201 0]).any
      (fun r => decide (polls 0 r.1 = [none, none] ∧ polls 1 r.1 = [none, none])) = true := by
    decide
  obtain ⟨tr, s, hrun, hp⟩ := Run.of_exec_any hexec
  have hchain := (hall tr s hrun).prompt 0
  rw [(of_decide_eq_true hp).1] at hchain
  have hlink := (List.isChain_cons_cons.1 hchain).1 rfl
  exact hlink rfl

end WineGlass.Polls
