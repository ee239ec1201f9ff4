namespace X86Os32

/-- Why a kernel function does not come back to its caller. -/
inductive Stop
  /-- `assertion_failed` prints the expression and halts the processor. -/
  | assertionFailed (exp : String)
  /-- A loop whose walk never meets its end. -/
  | endlessLoop
  /-- An access through the null pointer. -/
  | nullPointer
  /-- An access to an object whose memory has been released. -/
  | useAfterFree
  /-- `Guard::enter` by a control flow that is in the epilogue level, which
  waits for itself. -/
  | deadlock
  /-- An item inserted while it is linked, which ruins both queues.  Only the
  list model of the queues stops here. -/
  | linkedTwice
deriving DecidableEq, Repr

/-- `assert(EXP)`, compiled in because `NDEBUG` is never defined. -/
def assert (condition : Prop) [Decidable condition] (exp : String) :
    Except Stop Unit :=
  if condition then .ok () else .error (.assertionFailed exp)

/-- `*pointer`, where the null pointer is `none`. -/
def deref : Option α → Except Stop α
  | none => .error .nullPointer
  | some object => .ok object

@[simp] theorem deref_some (object : α) : deref (some object) = .ok object :=
  rfl

theorem deref_eq_ok {pointer : Option α} {object : α} :
    deref pointer = .ok object ↔ pointer = some object := by
  cases pointer <;> simp [deref]

theorem assert_of {condition : Prop} [Decidable condition]
    (hcondition : condition) (exp : String) :
    assert condition exp = .ok () := by
  simp [assert, hcondition]

theorem assert_eq_ok {condition : Prop} [Decidable condition] {exp : String}
    {done : Unit} : assert condition exp = .ok done ↔ condition := by
  unfold assert
  split <;> simp_all

theorem assert_eq_error {condition : Prop} [Decidable condition] {exp : String}
    {stop : Stop} : assert condition exp = .error stop ↔
      ¬condition ∧ .assertionFailed exp = stop := by
  unfold assert
  split <;> simp_all

@[simp] theorem ok_bind (value : α) (next : α → Except Stop β) :
    (Except.ok value >>= next) = next value := rfl

@[simp] theorem error_bind (stop : Stop) (next : α → Except Stop β) :
    (Except.error stop >>= next) = .error stop := rfl

end X86Os32
