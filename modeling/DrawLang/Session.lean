/-
DrawLang/Session.lean

Sessions: what a host asks of one machine, request after request.  A request
evaluates a program, calls a value, asks the machine to stop, or compares two
values.  Each value that a request yields is kept in a slot named by the number
of the request, counted from zero, so that later requests can use it; a slot
holds the very value, so a function that is called or compared later is the one
that was made.

The machine stays the same all along: a fault is an answer like any other, and
only a crash ends a session.  As long as there is no crash, there is one answer
for each request (`length_answers`).
-/
import DrawLang.Evaluation
import DrawLang.Operand

namespace DrawLang

/-- What a host asks for. -/
inductive Request where
  | evaluate (source : Text)
  /-- Read a program, and run it as if it stood in another text. -/
  | run (source text : Text)
  | apply (callee : Operand) (args : List Operand)
  | cancel
  | compare (first second : Operand)

/-- What a request comes to. -/
inductive Reply where
  | value (value : Value Code)
  | fault (fault : Fault)
  | done
  | verdict (equal : Bool)

/-- A machine between two requests, with the values it has yielded. -/
structure Session where
  machine : Machine Code Unit
  slots : Frame (Value Code)
  /-- The number of requests so far. -/
  requests : Nat

/-- A reply and what can be seen of the machine behind it. -/
structure Answer where
  reply : Reply
  depth : Nat
  cancelled : Bool

namespace Session

/-- A session before its first request. -/
def initial : Session := ⟨.initial (), [], 0⟩

/-- Take an action on the machine, and keep the value it yields. -/
def take (s : Session) (action : Action Code Unit (Value Code)) : Except Crash Reply × Session :=
  match action s.machine with
  | .ok v m => (.ok (.value v), ⟨m, s.slots.insert (Decimal.row s.requests) v, s.requests + 1⟩)
  | .error (.fault f) m => (.ok (.fault f), ⟨m, s.slots, s.requests + 1⟩)
  | .error (.crash c) m => (.error c, ⟨m, s.slots, s.requests + 1⟩)

/-- Read a program from a text and run it as if it stood in another one. -/
def runAs (source text : Text) : Action Code Unit (Value Code) :=
  match Scope.ofText source with
  | .error m => throw (m.stop source)
  | .ok program => Machine.run program text

/-- The reply to a request, and the session after it. -/
def reply (s : Session) : Request → Except Crash Reply × Session
  | .evaluate source => s.take (Machine.evaluate source)
  | .run source text => s.take (runAs source text)
  | .apply callee args =>
    s.take (Machine.apply (callee.value s.slots) (args.map (·.value s.slots)))
  | .cancel =>
    (.ok .done, ⟨{ s.machine with cancelled := true }, s.slots, s.requests + 1⟩)
  | .compare first second =>
    (.ok (.verdict ((first.value s.slots).same (second.value s.slots))),
      ⟨s.machine, s.slots, s.requests + 1⟩)

/-- A reply with what can be seen of the machine. -/
def answered (s : Session) (r : Reply) : Answer :=
  ⟨r, s.machine.environment.depth, s.machine.cancelled⟩

/-- The answers to requests in order, or the crash that ended the session. -/
def answers (s : Session) : List Request → Except Crash (List Answer)
  | [] => .ok []
  | request :: more =>
    match s.reply request with
    | (.error c, _) => .error c
    | (.ok r, s) => (s.answers more).map (s.answered r :: ·)

theorem length_answers {s : Session} {requests : List Request} {as : List Answer}
    (h : s.answers requests = .ok as) : as.length = requests.length := by
  induction requests generalizing s as with
  | nil =>
    cases h
    rfl
  | cons request more ih =>
    rw [answers] at h
    rcases hr : s.reply request with ⟨c | r, s'⟩
    · rw [hr] at h
      cases h
    · rw [hr] at h
      rcases hm : s'.answers more with c | rest
      · simp [hm, Except.map] at h
      · simp only [hm, Except.map, Except.ok.injEq] at h
        rw [← h, List.length_cons, List.length_cons, ih hm]

end Session

end DrawLang
