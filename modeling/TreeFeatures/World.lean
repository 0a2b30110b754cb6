import TreeFeatures.State

/-!
# Actions

An action changes the `World`: the program's own state, the state of its surroundings, the trace of
what happened, and the log. It ends with a result or with a fault; what it changed before
a fault stays changed.

* `ask` makes a call, `note` writes an entry of the log.
* `attempt` turns a fault into a result, `shielded` into an entry of the log.
* `run_bind` and its companions say what each of them does to a world.
-/

namespace TreeFeatures

/-- What happened while the program ran. -/
inductive Event where
  /-- The surroundings were asked something. -/
  | asked (c : Call)
  /-- Somebody was told about the end of the install of a language. -/
  | told (listener : Callback) (language : String) (success : Bool)
  /-- A request that somebody outside made when told about an install, and the task it got. -/
  | requested (name : String) (task : Option TaskId)

/-- The program and its surroundings. -/
structure World (σ : Type) where
  state : State
  outside : σ
  /-- What happened, newest first. -/
  trace : List Event
  /-- The log, newest first. -/
  log : List LogEntry

/-- A computation on a world that may end with a fault. -/
abbrev Act (σ : Type) := ExceptT Fault (StateM (World σ))

namespace Act

variable {σ α β : Type}

/-- The result of an action and the world after it. -/
def run (a : Act σ α) (w : World σ) : Except Fault α × World σ := StateT.run (ExceptT.run a) w

/-- An action given by what it does. -/
def of (f : World σ → Except Fault α × World σ) : Act σ α := ExceptT.mk f

/-- The state of the program. -/
def state : Act σ State := of fun w => (.ok w.state, w)

/-- Change the state of the program. -/
def update (f : State → State) : Act σ Unit := of fun w => (.ok (), { w with state := f w.state })

/-- Write an entry of the log. -/
def note (level : Level) (channel : Channel) (text : String) : Act σ Unit :=
  of fun w => (.ok (), { w with log := ⟨level, channel, text⟩ :: w.log })

/-- Write several entries of the log. -/
def noteAll (entries : List LogEntry) : Act σ Unit :=
  of fun w => (.ok (), { w with log := entries.reverse ++ w.log })

/-- Keep an event in the trace. -/
def emit (e : Event) : Act σ Unit := of fun w => (.ok (), { w with trace := e :: w.trace })

/-- Ask something of the surroundings. -/
def ask (s : Surroundings σ) (c : Call) : Act σ c.Reply :=
  of fun w =>
    let answer := s.reply c w.outside
    (answer.1, { w with outside := answer.2, trace := .asked c :: w.trace })

/-- The machine as it is now. -/
def machine (s : Surroundings σ) : Act σ Machine := of fun w => (.ok (s.machine w.outside), w)

/-- End with a fault. -/
def fail (f : Fault) : Act σ α := of fun w => (.error f, w)

/-- The result of an action, or its fault. -/
def attempt (a : Act σ α) : Act σ (Except Fault α) := of fun w => (.ok (a.run w).1, (a.run w).2)

/-- An action whose faults end up in the log. -/
def shielded (a : Act σ Unit) (level : Level) (channel : Channel) (text : Fault → String) :
    Act σ Unit :=
  of fun w =>
    match a.run w with
    | (.ok (), w') => (.ok (), w')
    | (.error f, w') => (note level channel (text f)).run w'

@[simp] theorem run_of (f : World σ → Except Fault α × World σ) (w : World σ) :
    (of f).run w = f w := rfl

@[simp] theorem run_pure (a : α) (w : World σ) : (pure a : Act σ α).run w = (.ok a, w) := rfl

theorem run_bind (a : Act σ α) (f : α → Act σ β) (w : World σ) :
    (a >>= f).run w =
      match a.run w with
      | (.ok x, w') => (f x).run w'
      | (.error e, w') => (.error e, w') := by
  simp only [run, ExceptT.run_bind, StateT.run_bind]
  rcases StateT.run (ExceptT.run a) w with ⟨r, w'⟩
  cases r <;> rfl

theorem run_bind_of_ok {a : Act σ α} {w w' : World σ} {x : α} (f : α → Act σ β)
    (h : a.run w = (.ok x, w')) : (a >>= f).run w = (f x).run w' := by rw [run_bind, h]

theorem run_bind_of_error {a : Act σ α} {w w' : World σ} {e : Fault} (f : α → Act σ β)
    (h : a.run w = (.error e, w')) : (a >>= f).run w = (.error e, w') := by rw [run_bind, h]

@[simp] theorem run_state (w : World σ) : (state : Act σ State).run w = (.ok w.state, w) := rfl

@[simp] theorem run_update (f : State → State) (w : World σ) :
    (update f).run w = (.ok (), { w with state := f w.state }) := rfl

@[simp] theorem run_attempt (a : Act σ α) (w : World σ) :
    (attempt a).run w = (.ok (a.run w).1, (a.run w).2) := rfl

@[simp] theorem run_fail (f : Fault) (w : World σ) :
    (fail f : Act σ α).run w = (.error f, w) := rfl

end Act

end TreeFeatures
