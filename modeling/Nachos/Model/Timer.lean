import Nachos.Model.Interrupt

/-! # The timer

`machine/timer.cc`, with the handler and the timer of `threads/system.cc`. -/

namespace Nachos

/-- `TimerTicks` of `machine/stats.h` -/
def timerTicks : ℤ := 100

namespace Timer

variable {α δ : Type}

/-- `TimeOfNextInterrupt`; `random` is what `Random` returns. -/
def timeOfNextInterrupt (randomize : Bool) (random : ℕ) : ℤ :=
  if randomize then 1 + (random : ℤ) % (timerTicks * 2) else timerTicks

/-- `TimerInterruptHandler` -/
def timerInterruptHandler (s : Interrupt α) : List (HandlerCall α) :=
  if s.status ≠ .idleMode then [.yieldOnReturn] else []

/-- `interrupt->Schedule(TimerHandler, (int) this, TimeOfNextInterrupt(), TimerInt)` -/
def request (randomize : Bool) (random : ℕ) : Request (Option δ) :=
  ⟨none, timeOfNextInterrupt randomize random, .timerInt⟩

def timerExpired (randomize : Bool) (random : ℕ) (s : Interrupt (Option δ)) :
    List (HandlerCall (Option δ)) :=
  .schedule (request randomize random) :: timerInterruptHandler s

/-- The handlers of a machine with a timer, which is `none`, and other devices. -/
def handlers (randomize : Bool) (random : Interrupt (Option δ) → ℕ)
    (devices : δ → Interrupt (Option δ) → List (HandlerCall (Option δ))) :
    Option δ → Interrupt (Option δ) → List (HandlerCall (Option δ))
  | none, s => timerExpired randomize (random s) s
  | some device, s => devices device s

/-- `timer = new Timer(TimerInterruptHandler, 0, randomYield)` of `Initialize` -/
def create (randomize : Bool) (random : ℕ) : Interrupt (Option δ) :=
  Interrupt.create.schedule (request randomize random)

end Timer

end Nachos
