import KernelFootprint.Proofs.Frame
import KernelFootprint.Proofs.LateBinding

/-!
# What an evaluation requests

An operation on known integers is folded. One with a deferred operand is requested from
the emitter, right after the constants for the operands that are known. If answers to
operations are deferred in turn, an operation is folded exactly if all terminals below it
are known. The course of an evaluation notes what happens at every node of a tree, and
all requests can be read off it, from left to right and from the leaves to the root.
-/

namespace KernelFootprint

open Analysis

/-- The requests answered so far, in the order they were made. -/
def Ledger.trace (ledger : Ledger) : List Request := ledger.requests.reverse

/-- Whether requests were made, and none taken back, between two ledgers. -/
def Ledger.Continues (before after : Ledger) : Prop := before.trace <+: after.trace

/-- What is requested for a value before it becomes an operand of a requested operation. -/
def Value.constants : Value → List Request
  | .int number => [.constant .wide (.int number)]
  | _ => []

theorem Value.eq_int_of_isInteger {value : Value} (known : value.isInteger = true) :
    ∃ number, value = .int number := by
  cases value with
  | int number => exact ⟨number, rfl⟩
  | _ => cases known

namespace Emitter

variable {emitter : Emitter} {before after : Ledger} {value : Value}

theorem trace_emit {request : Request}
    (emitted : (emitter.emit request).outcome before = (.ok value, after)) :
    after.trace = before.trace ++ [request] := by
  have answered := respond_of_emit emitted
  rw [outcome_emit, answered] at emitted
  cases emitted
  exact List.reverse_cons

theorem trace_lift {operand : Value}
    (lifted : (emitter.lift operand).outcome before = (.ok value, after)) :
    after.trace = before.trace ++ operand.constants := by
  cases operand with
  | int number => exact trace_emit lifted
  | _ =>
      cases lifted
      exact (List.append_nil _).symm

theorem combine_of_deferred {op : WordOp} {first second : Value}
    (deferred : (first.isInteger && second.isInteger) = false) :
    emitter.combine op first second = (do
      let operand ← emitter.lift first
      let other ← emitter.lift second
      emitter.emit (.operation op operand other) : Analysis Value) := by
  cases first with
  | int left =>
      cases second with
      | int right => cases deferred
      | _ => rfl
  | _ => rfl

theorem isExtensible_continues (emitter : Emitter) :
    IsExtensible emitter (fun _ analysis _ => Keeps Ledger.Continues analysis) where
  value _ ledger := List.prefix_refl ledger.trace
  fault _ ledger := List.prefix_refl ledger.trace
  request request ledger := by
    rcases emitted : (emitter.emit request).outcome ledger with ⟨fault | value, after⟩
    · rw [outcome_emit] at emitted
      cases answered : emitter.respond ledger.requests request with
      | ok value =>
          rw [answered] at emitted
          cases emitted
      | error fault =>
          rw [answered] at emitted
          cases emitted
          exact List.prefix_refl ledger.trace
    · exact ⟨[request], (trace_emit emitted).symm⟩
  sequence := by
    intro First Second first other next otherNext onFirst onNext ledger
    have before := onFirst ledger
    rw [outcome_bind]
    rcases found : first.outcome ledger with ⟨fault | value, middle⟩
    · rw [found] at before
      exact before
    · rw [found] at before
      exact before.trans (onNext value middle)

end Emitter

/-- Only phi terms look at the bounds of loops. -/
theorem RangeContext.terminal_withBounds (context : RangeContext) (bound : Datum → Analysis Value)
    {node : Terminal} (avoids : ∀ id, node ≠ .phiTerm id) (text : Datum) :
    (context.withBounds bound).terminal text node = context.terminal text node := by
  cases node with
  | phiTerm id => exact absurd rfl (avoids id)
  | _ => rfl

/-- A terminal adds requests of its own at most. -/
theorem Evaluator.continues_terminal (evaluator : Evaluator) (resolver : Resolver)
    (view : Option LoopView) (loop text : Datum) {node : Terminal}
    (avoids : evaluator.Avoids node) :
    Keeps Ledger.Continues ((evaluator.valuation resolver view loop).terminal text node) := by
  have extensible := resolver.emitter.isExtensible_continues
  cases evaluator with
  | concrete => exact extensible.ofExcept _
  | extreme mode =>
      have avoids := avoids nofun
      have unbounded := (RangeSetting.of resolver mode view loop).context.terminal_withBounds
        (fun _ => fail Misuse.unimplemented) avoids text
      change Keeps Ledger.Continues ((RangeSetting.of resolver mode view loop).context.terminal
        text node)
      rw [← unbounded]
      exact @RangeContext.related_terminal (RangeSetting.of resolver mode view loop).context _
        extensible _ (fun _ => fail Misuse.unimplemented) node
        (fun id same => absurd same (avoids id)) text

/-- What happens at every node of a tree that is evaluated. -/
inductive Course
  /-- A terminal with its value and the requests that valuing it takes. -/
  | terminal (value : Value) (own : List Request)
  /-- An operation with the operands that it is given and its value. -/
  | operation (op : WordOp) (first second value : Value) (left right : Course)

namespace Course

def value : Course → Value
  | .terminal value _ => value
  | .operation _ _ _ value _ _ => value

/-- Whether all terminals are known integers. -/
def isKnown : Course → Bool
  | .terminal value _ => value.isInteger
  | .operation _ _ _ _ left right => left.isKnown && right.isKnown

/-- All requests in the order they are made. -/
def requests : Course → List Request
  | .terminal _ own => own
  | .operation op first second _ left right =>
      left.requests ++ right.requests ++
        if left.isKnown && right.isKnown then []
        else left.value.constants ++ right.value.constants ++ [.operation op first second]

/-- The courses that evaluations of a tree take, from one ledger to another. -/
inductive Follows (valuation : BinaryTree.Valuation) (reading : Operation → Option WordOp) :
    Course → BinaryTree → Ledger → Ledger → Prop
  | terminal {text : Datum} {node : Terminal} {value : Value} {own : List Request}
      {before after : Ledger}
      (valued : (valuation.terminal text node).outcome before = (.ok value, after))
      (made : after.trace = before.trace ++ own) :
      Follows valuation reading (.terminal value own) (.leaf text (.terminal node)) before after
  | folded {text : String} {operation : Operation} {op : WordOp} {leftTree rightTree : BinaryTree}
      {left right : Course} {first second result : Int} {before middle after : Ledger}
      (read : reading operation = some op)
      (onLeft : Follows valuation reading left leftTree before middle)
      (onRight : Follows valuation reading right rightTree middle after)
      (leftKnown : left.value = .int first) (rightKnown : right.value = .int second)
      (applied : op.fold .wide first second = .ok result) :
      Follows valuation reading
        (.operation op (.int first) (.int second) (.int result) left right)
        (.branch text operation leftTree rightTree) before after
  | requested {text : String} {operation : Operation} {op : WordOp}
      {leftTree rightTree : BinaryTree} {left right : Course} {first second result : Value}
      {before middle last lifted final after : Ledger}
      (read : reading operation = some op)
      (onLeft : Follows valuation reading left leftTree before middle)
      (onRight : Follows valuation reading right rightTree middle last)
      (deferred : (left.value.isInteger && right.value.isInteger) = false)
      (leftLifted : (valuation.emitter.lift left.value).outcome last = (.ok first, lifted))
      (rightLifted : (valuation.emitter.lift right.value).outcome lifted = (.ok second, final))
      (answered : (valuation.emitter.emit (.operation op first second)).outcome final =
        (.ok result, after)) :
      Follows valuation reading (.operation op first second result left right)
        (.branch text operation leftTree rightTree) before after

variable {valuation : BinaryTree.Valuation} {reading : Operation → Option WordOp}
  {course : Course} {tree : BinaryTree} {before after : Ledger}

/-- The value at the end of a course is that of the tree. -/
theorem Follows.outcome (reads : valuation.Reads reading)
    (follows : Follows valuation reading course tree before after) :
    (tree.evaluateWith valuation).outcome before = (.ok course.value, after) := by
  have applied (text : String) {operation : Operation} {op : WordOp}
      (read : reading operation = some op) (first second : Value) :
      valuation.apply text operation first second = valuation.emitter.combine op first second := by
    have reading := reads text operation first second
    rw [read] at reading
    exact reading
  induction follows with
  | terminal valued made =>
      rw [BinaryTree.evaluateWith_terminal]
      exact valued
  | folded read onLeft onRight leftKnown rightKnown folded leftIH rightIH =>
      refine BinaryTree.evaluateWith_branch_eq_ok.mpr ⟨_, _, _, _, leftIH, rightIH, ?_⟩
      rw [applied _ read, leftKnown, rightKnown, Emitter.combine_of_fold _ folded]
      rfl
  | requested read onLeft onRight deferred leftLifted rightLifted answered leftIH rightIH =>
      refine BinaryTree.evaluateWith_branch_eq_ok.mpr ⟨_, _, _, _, leftIH, rightIH, ?_⟩
      rw [applied _ read, Emitter.combine_of_deferred deferred]
      exact outcome_bind_eq_ok.mpr ⟨_, _, leftLifted,
        outcome_bind_eq_ok.mpr ⟨_, _, rightLifted, answered⟩⟩

/-- Every evaluation that comes to a value takes a course to it. -/
theorem exists_follows (reads : valuation.Reads reading)
    (continues : ∀ text node, (text, node) ∈ tree.terminals →
      Keeps Ledger.Continues (valuation.terminal text node))
    {value : Value}
    (returned : (tree.evaluateWith valuation).outcome before = (.ok value, after)) :
    ∃ course, Follows valuation reading course tree before after ∧ course.value = value := by
  induction tree generalizing before after value with
  | leaf text symbol =>
      cases symbol with
      | terminal node =>
          rw [BinaryTree.evaluateWith_terminal] at returned
          have continued := continues text node (List.mem_singleton.mpr rfl) before
          rw [returned] at continued
          obtain ⟨own, made⟩ := continued
          exact ⟨.terminal value own, .terminal returned made.symm, rfl⟩
      | structural node => cases returned
  | branch text operation leftTree rightTree leftIH rightIH =>
      obtain ⟨first, middle, second, last, leftReturned, rightReturned, applied⟩ :=
        BinaryTree.evaluateWith_branch_eq_ok.mp returned
      obtain ⟨left, onLeft, rfl⟩ := leftIH
        (fun text node member => continues text node (List.mem_append_left _ member)) leftReturned
      obtain ⟨right, onRight, rfl⟩ := rightIH
        (fun text node member => continues text node (List.mem_append_right _ member))
        rightReturned
      have combined := reads text operation left.value right.value
      cases read : reading operation with
      | none =>
          rw [read] at combined
          obtain ⟨fault, failed⟩ := combined
          rw [failed] at applied
          cases applied
      | some op =>
          rw [read] at combined
          rw [combined] at applied
          cases known : left.value.isInteger && right.value.isInteger with
          | false =>
              rw [Emitter.combine_of_deferred known] at applied
              obtain ⟨first, lifted, leftLifted, rest⟩ := outcome_bind_eq_ok.mp applied
              obtain ⟨second, final, rightLifted, answered⟩ := outcome_bind_eq_ok.mp rest
              exact ⟨.operation op first second value left right,
                .requested read onLeft onRight known leftLifted rightLifted answered, rfl⟩
          | true =>
              obtain ⟨leftKnown, rightKnown⟩ := (Bool.and_eq_true _ _).mp known
              obtain ⟨first, leftSame⟩ := Value.eq_int_of_isInteger leftKnown
              obtain ⟨second, rightSame⟩ := Value.eq_int_of_isInteger rightKnown
              rw [leftSame, rightSame] at applied
              obtain ⟨result, folded, rfl, rfl⟩ := Emitter.fold_of_combine applied
              exact ⟨.operation op (.int first) (.int second) (.int result) left right,
                .folded read onLeft onRight leftSame rightSame folded, rfl⟩

/-- Behind a deferring emitter a value is known exactly if all terminals below it are. -/
theorem Follows.isInteger_value (deferring : valuation.emitter.IsDeferring)
    (follows : Follows valuation reading course tree before after) :
    course.value.isInteger = course.isKnown := by
  induction follows with
  | terminal valued made => rfl
  | folded read onLeft onRight leftKnown rightKnown folded leftIH rightIH =>
      rw [isKnown, ← leftIH, ← rightIH, leftKnown, rightKnown]
      rfl
  | requested read onLeft onRight deferred leftLifted rightLifted answered leftIH rightIH =>
      rw [isKnown, ← leftIH, ← rightIH, deferred, Course.value, Value.isInteger,
        deferring _ _ _ _ _ (Emitter.respond_of_emit answered)]
      rfl

/-- Behind a deferring emitter the requests are those of the course. -/
theorem Follows.trace_eq (deferring : valuation.emitter.IsDeferring)
    (follows : Follows valuation reading course tree before after) :
    after.trace = before.trace ++ course.requests := by
  induction follows with
  | terminal valued made => exact made
  | folded read onLeft onRight leftKnown rightKnown folded leftIH rightIH =>
      rw [requests, ← onLeft.isInteger_value deferring, ← onRight.isInteger_value deferring,
        leftKnown, rightKnown, rightIH, leftIH]
      simp [Value.isInteger, Value.integer?]
  | requested read onLeft onRight deferred leftLifted rightLifted answered leftIH rightIH =>
      rw [requests, ← onLeft.isInteger_value deferring, ← onRight.isInteger_value deferring,
        deferred, Emitter.trace_emit answered, Emitter.trace_lift rightLifted,
        Emitter.trace_lift leftLifted, rightIH, leftIH]
      simp only [Bool.false_eq_true, if_false, List.append_assoc]

end Course

/-- Values are deferred only where they must be. An evaluation that comes to a value takes a
course through the tree. The value is a known integer exactly if all terminals are, and the
requests made are those of the course: what terminals request for themselves, and one
operation for every node above a deferred terminal, after the constants for its operands. -/
theorem Evaluator.exists_course (evaluator : Evaluator) {resolver : Resolver}
    (deferring : resolver.emitter.IsDeferring) (view : Option LoopView) (loop : Datum)
    {tree : BinaryTree}
    (avoids : ∀ text node, (text, node) ∈ tree.terminals → evaluator.Avoids node)
    {before after : Ledger} {value : Value}
    (returned : (tree.evaluateWith (evaluator.valuation resolver view loop)).outcome before =
      (.ok value, after)) :
    ∃ course : Course,
      course.Follows (evaluator.valuation resolver view loop) evaluator.reading tree before after ∧
        course.value = value ∧ value.isInteger = course.isKnown ∧
          after.trace = before.trace ++ course.requests := by
  have deferring : (evaluator.valuation resolver view loop).emitter.IsDeferring := by
    cases evaluator with
    | concrete => exact deferring
    | extreme mode => exact deferring
  obtain ⟨course, follows, rfl⟩ := Course.exists_follows (evaluator.reads resolver view loop)
    (fun text node member =>
      evaluator.continues_terminal resolver view loop text (avoids text node member)) returned
  exact ⟨course, follows, rfl, follows.isInteger_value deferring, follows.trace_eq deferring⟩

/-- A launch with a runtime argument whose requests are answered by numbered names. -/
def Resolver.numbered : Resolver :=
  { Resolver.sample (.runtime (.var "n")) with emitter := .numbered }

/-- The greatest address of a block row takes two operations with a constant each. The shift of
the thread index is folded. -/
theorem Evaluator.exists_course_rowMajor :
    ∃ (course : Course) (after : Ledger),
      course.Follows ((Evaluator.extreme .greatest).valuation .numbered none (.integer 0))
        (Evaluator.extreme .greatest).reading BinaryTree.rowMajor {} after ∧
      course.value = .var "t4" ∧ course.isKnown = false ∧
      course.requests =
        [.constant .wide 3, .operation .mul (.var "t1") (.var "n"), .constant .wide 124,
          .operation .add (.var "t2") (.var "t3")] := by
  have avoids text node (member : (text, node) ∈ BinaryTree.rowMajor.terminals) :
      (Evaluator.extreme .greatest).Avoids node := by
    intro other id same
    subst same
    simp [BinaryTree.rowMajor, BinaryTree.terminals] at member
  have returned : (BinaryTree.rowMajor.evaluateWith
      ((Evaluator.extreme .greatest).valuation .numbered none (.integer 0))).outcome {} =
        (.ok (.var "t4"), { requests :=
          [.operation .add (.var "t2") (.var "t3"), .constant .wide 124,
            .operation .mul (.var "t1") (.var "n"), .constant .wide 3] }) := by cbv
  obtain ⟨course, follows, same, known, made⟩ := (Evaluator.extreme .greatest).exists_course
    Emitter.isDeferring_numbered none (.integer 0) avoids returned
  exact ⟨course, _, follows, same, known.symm, made.symm⟩

end KernelFootprint
