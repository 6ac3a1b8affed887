import ExecState.Machine.Growth

/-!
# Sessions on a machine

A machine is a memory, a stack and an advisor. Everything that can be asked of it or done to it is
a command, so that whole runs can be spoken of.

The parts of a machine work with byte strings of any size, and a session with those that can be
addressed. A command that would have to hold more bytes breaks off and changes nothing.
-/

namespace ExecState

/-- A memory, a stack and an advisor. -/
structure Machine where
  memory : Memory
  stack : Stack
  advisor : GrowthAdvisor
deriving DecidableEq

namespace Machine

/-- The machine in which nothing happened yet. -/
def empty : Machine := ⟨Memory.empty, Stack.empty, GrowthAdvisor.standard⟩

/-- One step of a session. -/
inductive Command
  | resize (target : Nat)
  | write (offset size : Nat) (value : Bytes)
  | writeClamped (offset size : Nat) (value : Bytes)
  | read (offset size : Nat)
  | contents
  | cost
  | expansionCost (newLength : Nat)
  | push (v : U256)
  | pop
  | popMany (n : Nat)
  | peek (i : Nat)
  | peekMany (n : Nat)
  | isEmpty
  | render
  /-- Takes an advisor with another limit. -/
  | limit (advisor : GrowthAdvisor)
  | requiredLength (region : Region)
  | prepare (byte : UInt8)
  | grow (family : MemoryFamily)
deriving DecidableEq

/-- What a command answers. -/
inductive Answer
  | done
  | flag (value : Bool)
  | count (value : Nat)
  | gas (value : Gas)
  | number (value : U256)
  | numbers (values : List U256)
  | bytes (value : Bytes)
  | text (value : String)
deriving DecidableEq

/-- Why a command fails. -/
inductive Fault
  | memory (cause : MemoryError)
  | stack (cause : StackError)
  | growth (cause : GrowthError)
  /-- The command would have to hold more bytes than a byte string can have. -/
  | exhausted
deriving DecidableEq

/-- The length that memory needs for a region, if the advisor admits it. -/
def growth (m : Machine) (family : MemoryFamily) : Nat :=
  match m.advisor.requiredLength (family.region m.stack.peek) with
  | .ok required => required
  | .error _ => 0

/-- The number of bytes that a command has to hold beside what the machine holds. -/
def demand (m : Machine) : Command → Nat
  | .resize target => target
  | .read _ size => size
  | .peekMany n => 32 * n
  | .prepare byte => ((MemoryFamily.ofByte? byte).map m.growth).getD 0
  | .grow family => m.growth family
  | _ => 0

/-- What a step on the memory leaves of the machine. -/
def afterMemory {α : Type} (m : Machine) (answer : α → Answer) (o : Outcome MemoryError α Memory) :
    Outcome Fault Answer Machine :=
  ((o.1.map answer).mapError .memory, { m with memory := o.2 })

/-- What a step on the stack leaves of the machine. -/
def afterStack {α : Type} (m : Machine) (answer : α → Answer) (o : Outcome StackError α Stack) :
    Outcome Fault Answer Machine :=
  ((o.1.map answer).mapError .stack, { m with stack := o.2 })

/-- What a step of the advisor leaves of the machine. -/
def afterGrowth {α : Type} (m : Machine) (answer : α → Answer) (o : Outcome GrowthError α Memory) :
    Outcome Fault Answer Machine :=
  ((o.1.map answer).mapError .growth, { m with memory := o.2 })

def perform (m : Machine) : Command → Outcome Fault Answer Machine
  | .resize target => .done .done { m with memory := m.memory.resize target }
  | .write offset size value => m.afterMemory (fun _ ↦ .done) (m.memory.write offset size value)
  | .writeClamped offset size value =>
    m.afterMemory (fun _ ↦ .done) (m.memory.writeClamped offset size value)
  | .read offset size => .done (.bytes (m.memory.read offset size)) m
  | .contents => .done (.bytes m.memory.contents) m
  | .cost => .done (.gas m.memory.cost) m
  | .expansionCost newLength => .done (.gas (m.memory.expansionCost newLength)) m
  | .push v => .done .done { m with stack := m.stack.push v }
  | .pop => m.afterStack .number m.stack.pop
  | .popMany n => m.afterStack .numbers (m.stack.popMany n)
  | .peek i => .done (.number (m.stack.peek i)) m
  | .peekMany n => .done (.numbers (m.stack.peekMany n)) m
  | .isEmpty => .done (.flag m.stack.isEmpty) m
  | .render => .done (.text m.stack.render) m
  | .limit advisor => .done (.count advisor.limit) { m with advisor }
  | .requiredLength region =>
    match m.advisor.requiredLength region with
    | .ok required => .done (.count required) m
    | .error e => .failed (.growth e) m
  | .prepare byte => m.afterGrowth (fun _ ↦ .done) (m.advisor.prepare byte m.stack m.memory)
  | .grow family => m.afterGrowth .count (m.advisor.grow family m.stack m.memory)

def step (m : Machine) (c : Command) : Outcome Fault Answer Machine :=
  if m.demand c ≤ Bytes.greatestSize then m.perform c else .failed .exhausted m

/-- Carries out steps one after the other. A step that fails does not end the run. -/
def run (m : Machine) : List Command → List (Except Fault Answer) × Machine
  | [] => ([], m)
  | c :: rest =>
    let (result, m') := m.step c
    let (results, m'') := m'.run rest
    (result :: results, m'')

end Machine

end ExecState
