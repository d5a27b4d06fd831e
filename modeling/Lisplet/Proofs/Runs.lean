import Lisplet.Evaluation.Form

/-! How runs end, what two runs one after the other do, which runs have nothing to do with the host,
and which always end. -/
namespace Lisplet

namespace Run
variable {α β : Type} {m : Run α} {f : α → Run β} {w w' : World}

def after : EStateM.Result Halt World α → World
  | .ok _ w | .error _ w => w

/-- The run ends with a result or with an error, and leaves this world. -/
def Ends (m : Run α) (w : World) (o : Except Error α) (w' : World) : Prop :=
  m w = match o with
    | .ok a => .ok a w'
    | .error e => .error (.error e) w'

theorem bind_apply (m : Run α) (f : α → Run β) (w : World) :
    (m >>= f) w = match m w with
      | .ok a w' => f a w'
      | .error halt w' => .error halt w' := by
  change EStateM.bind m f w = _
  unfold EStateM.bind
  cases m w <;> rfl

theorem ends_unique {o o' : Except Error α} {w'' : World} (h : m.Ends w o w')
    (h' : m.Ends w o' w'') : o = o' ∧ w' = w'' := by
  unfold Ends at h h'
  rw [h] at h'
  cases o <;> cases o' <;> simp_all

theorem ends_congr {m' : Run α} {o : Except Error α} (h : m w = m' w) :
    m.Ends w o w' ↔ m'.Ends w o w' := by
  unfold Ends
  rw [h]

theorem ends_of_ok {a : α} {o : Except Error α} {w₁ : World} (h : m w = .ok a w₁) :
    m.Ends w o w' ↔ o = .ok a ∧ w' = w₁ := by
  cases o <;> simp [Ends, h, eq_comm]

theorem ends_of_error {e : Error} {o : Except Error α} {w₁ : World}
    (h : m w = .error (.error e) w₁) : m.Ends w o w' ↔ o = .error e ∧ w' = w₁ := by
  cases o <;> simp [Ends, h, eq_comm]

@[simp] theorem ends_pure {a : α} {o : Except Error α} :
    (pure a : Run α).Ends w o w' ↔ o = .ok a ∧ w' = w :=
  ends_of_ok rfl

@[simp] theorem ends_fail {e : Error} {o : Except Error α} :
    (fail e : Run α).Ends w o w' ↔ o = .error e ∧ w' = w :=
  ends_of_error rfl

@[simp] theorem ends_ofExcept {result o : Except Error α} :
    (ofExcept result).Ends w o w' ↔ o = result ∧ w' = w := by
  cases result with
  | ok a => exact ends_pure
  | error e => exact ends_fail

@[simp] theorem ends_parsed {result : Except ParseError α} {o : Except Error α} :
    (parsed result).Ends w o w' ↔ o = result.mapError .parse ∧ w' = w := by
  cases result with
  | ok a => exact ends_pure
  | error e => exact ends_fail

@[simp] theorem not_ends_outOfFuel {o : Except Error α} : ¬ (outOfFuel : Run α).Ends w o w' := by
  have hrun : (outOfFuel : Run α) w = .error .outOfFuel w := rfl
  cases o <;> simp [Ends, hrun]

theorem ends_if {c : Prop} [Decidable c] {m' : Run α} {o : Except Error α} :
    (if c then m else m').Ends w o w' ↔ (c ∧ m.Ends w o w') ∨ (¬ c ∧ m'.Ends w o w') := by
  split <;> simp [*]

theorem ends_bind {o : Except Error β} : (m >>= f).Ends w o w' ↔
    (∃ a w₁, m.Ends w (.ok a) w₁ ∧ (f a).Ends w₁ o w') ∨
      ∃ e, m.Ends w (.error e) w' ∧ o = .error e := by
  simp only [Ends, bind_apply]
  cases hm : m w with
  | ok a w₁ =>
    simp only [EStateM.Result.ok.injEq, reduceCtorEq, false_and, exists_false, or_false]
    refine ⟨fun h => ⟨a, w₁, ⟨rfl, rfl⟩, h⟩, ?_⟩
    rintro ⟨a', w₁', ⟨rfl, rfl⟩, h⟩
    exact h
  | error halt w₁ =>
    cases halt with
    | error e => cases o <;> simp [eq_comm, and_comm]
    | outOfFuel => cases o <;> simp

theorem ends_attempt_bind {f : Except Error α → Run β} {o : Except Error β} :
    (attempt m >>= f).Ends w o w' ↔
      ∃ result w₁, m.Ends w result w₁ ∧ (f result).Ends w₁ o w' := by
  simp only [Ends, bind_apply, attempt]
  cases hm : m w with
  | ok a w₁ =>
    constructor
    · exact fun h => ⟨.ok a, w₁, rfl, h⟩
    · rintro ⟨result, w₂, hresult, h⟩
      cases result <;> cases hresult
      exact h
  | error halt w₁ =>
    cases halt with
    | error e =>
      constructor
      · exact fun h => ⟨.error e, w₁, rfl, h⟩
      · rintro ⟨result, w₂, hresult, h⟩
        cases result <;> cases hresult
        exact h
    | outOfFuel =>
      constructor
      · cases o <;> exact fun h => nomatch h
      · rintro ⟨result, w₂, hresult, h⟩
        cases result <;> cases hresult

theorem ends_bind_ok {a : α} {w₁ : World} {o : Except Error β} (hm : m.Ends w (.ok a) w₁)
    (hf : (f a).Ends w₁ o w') : (m >>= f).Ends w o w' :=
  ends_bind.2 (.inl ⟨a, w₁, hm, hf⟩)

theorem ends_bind_error {e : Error} (hm : m.Ends w (.error e) w') :
    (m >>= f).Ends w (.error e) w' :=
  ends_bind.2 (.inr ⟨e, hm, rfl⟩)

theorem modifyGet_apply (f : World → α × World) (w : World) :
    (modifyGet f : Run α) w = .ok (f w).1 (f w).2 := rfl

theorem readLine?_apply (w : World) :
    readLine? w = match w.console.readLine? with
      | some (line, console) => .ok (some line) { w with console }
      | none => .ok none w := by
  rw [readLine?, modifyGet_apply]
  cases w.console.readLine? <;> rfl

theorem writeFile_apply (path text : String) (w : World) :
    writeFile path text w = match w.disk.write path text with
      | .ok disk => .ok (.ok ()) { w with disk }
      | .error fault => .ok (.error fault) w := by
  rw [writeFile, modifyGet_apply]
  cases w.disk.write path text <;> rfl

/-- What the run does depends on the store, the console and the disk, and changes nothing else. -/
def Local (m : Run α) : Prop :=
  ∀ store console disk, ∃ (o : Except Halt α) (store' : Store) (console' : Console) (disk' : Disk),
    ∀ host depth, m ⟨store, console, disk, host, depth⟩ = match o with
      | .ok a => .ok a ⟨store', console', disk', host, depth⟩
      | .error halt => .error halt ⟨store', console', disk', host, depth⟩

namespace Local

theorem pure (a : α) : (Pure.pure a : Run α).Local :=
  fun _ _ _ => ⟨.ok a, _, _, _, fun _ _ => rfl⟩

theorem fail (e : Error) : (Run.fail e : Run α).Local :=
  fun _ _ _ => ⟨.error (.error e), _, _, _, fun _ _ => rfl⟩

theorem outOfFuel : (Run.outOfFuel : Run α).Local :=
  fun _ _ _ => ⟨.error .outOfFuel, _, _, _, fun _ _ => rfl⟩

theorem bind (hm : m.Local) (hf : ∀ a, (f a).Local) : (m >>= f).Local := by
  intro store console disk
  obtain ⟨o, store₁, console₁, disk₁, hm⟩ := hm store console disk
  cases o with
  | ok a =>
    obtain ⟨o, store₂, console₂, disk₂, hf⟩ := hf a store₁ console₁ disk₁
    exact ⟨o, store₂, console₂, disk₂, fun host depth => by rw [bind_apply, hm, ← hf]⟩
  | error halt =>
    exact ⟨.error halt, store₁, console₁, disk₁, fun host depth => by rw [bind_apply, hm]⟩

theorem ofExcept (result : Except Error α) : (Run.ofExcept result).Local := by
  cases result with
  | ok a => exact pure a
  | error e => exact fail e

theorem parsed (result : Except ParseError α) : (Run.parsed result).Local := by
  cases result with
  | ok a => exact pure a
  | error e => exact fail (.parse e)

theorem arithmetic (result : Except ArithmeticFault Number) : (Run.arithmetic result).Local := by
  cases result with
  | ok n => exact pure _
  | error fault => exact fail _

theorem print (text : String) : (Run.print text).Local :=
  fun store console disk => ⟨.ok (), store, console.print text, disk, fun _ _ => rfl⟩

theorem readLine? : Run.readLine?.Local := by
  intro store console disk
  cases h : console.readLine? with
  | none =>
    exact ⟨.ok none, store, console, disk, fun host depth => by
      simp only [readLine?_apply, h]⟩
  | some read =>
    exact ⟨.ok (some read.1), store, read.2, disk, fun host depth => by
      simp only [readLine?_apply, h]⟩

theorem newFrame (bindings : List (String × Value)) (parent : Option FrameId) :
    (Run.newFrame bindings parent).Local :=
  fun store console disk => ⟨.ok (store.newFrame bindings parent).1,
    (store.newFrame bindings parent).2, console, disk, fun _ _ => rfl⟩

theorem newClosure (params : List String) (body : Value) (frame : FrameId) (help : Option Value) :
    (Run.newClosure params body frame help).Local :=
  fun store console disk => ⟨.ok (.closure ⟨store.newClosure.1, params, body, frame, help⟩),
    store.newClosure.2, console, disk, fun _ _ => rfl⟩

theorem lookup (frame : FrameId) (name : String) : (Run.lookup frame name).Local := by
  intro store console disk
  cases h : store.lookup? frame name with
  | some v =>
    exact ⟨.ok v, store, console, disk, fun host depth => by simp [Run.lookup, h]⟩
  | none =>
    exact ⟨.error (.error (.unbound name)), store, console, disk, fun host depth => by
      simp [Run.lookup, h]⟩

theorem bindFrame (frame : FrameId) (name : String) (v : Value) : (Run.bind frame name v).Local :=
  fun store console disk => ⟨.ok (), store.bind frame name v, console, disk, fun _ _ => rfl⟩

theorem bindGlobal (frame : FrameId) (name : String) (v : Value) :
    (Run.bindGlobal frame name v).Local :=
  fun store console disk => ⟨.ok (), store.bindGlobal frame name v, console, disk, fun _ _ => rfl⟩

theorem readFile (path : String) : (Run.readFile path).Local :=
  fun store console disk => ⟨.ok (disk.read path), store, console, disk, fun _ _ => rfl⟩

theorem writeFile (path text : String) : (Run.writeFile path text).Local := by
  intro store console disk
  cases h : disk.write path text with
  | ok disk' =>
    exact ⟨.ok (.ok ()), store, console, disk', fun host depth => by
      simp only [writeFile_apply, h]⟩
  | error fault =>
    exact ⟨.ok (.error fault), store, console, disk, fun host depth => by
      simp only [writeFile_apply, h]⟩

theorem readExpression (prompt : String) : (Run.readExpression prompt).Local := by
  refine (print prompt).bind fun _ => readLine?.bind fun line => ?_
  match line with
  | some (.text line) => exact parsed _
  | some .garbled => exact fail _
  | none => exact parsed _

theorem readText (x : Value) : (Run.ofExcept x.toText >>= Run.readExpression).Local :=
  (ofExcept _).bind fun _ => readExpression _

theorem hostDepth_eq {o : Except Error α} (h : m.Local) (hends : m.Ends w o w') :
    w'.hostDepth = w.hostDepth := by
  obtain ⟨result, store, console, disk, hrun⟩ := h w.store w.console w.disk
  have hrun : m w = _ := hrun w.host w.hostDepth
  unfold Ends at hends
  rw [hends] at hrun
  cases o <;> cases result <;> simp_all

theorem atHostDepth_eq (h : m.Local) (depth : Nat) : m.atHostDepth depth = m := by
  funext w
  obtain ⟨result, store, console, disk, hrun⟩ := h w.store w.console w.disk
  have houter : m w = _ := hrun w.host w.hostDepth
  have hinner : m { w with hostDepth := depth } = _ := hrun w.host depth
  unfold Run.atHostDepth
  rw [houter, hinner]
  cases result <;> rfl

end Local

end Run

open Run

theorem Comparison.local_run (c : Comparison) (x y : Value) : (c.run x y).Local := by
  unfold Comparison.run
  split
  · exact .pure _
  · exact .pure _
  · exact .fail _

theorem Unary.local_run (op : Unary) (x : Value) : (op.run x).Local := by
  cases op with
  | not | isList | isAtom => exact .pure _
  | increment | double => exact (Local.ofExcept _).bind fun _ => .arithmetic _
  | head | tail => exact (Local.ofExcept _).bind fun _ => .pure _
  | help => cases x <;> exact .pure _
  | sleep =>
    refine (Local.ofExcept _).bind fun seconds => ?_
    split
    · exact .pure _
    · exact .fail _
  | read => exact (Local.ofExcept _).bind fun _ => .readExpression _
  | readFile =>
    refine (Local.ofExcept _).bind fun path => (Local.readFile path).bind fun result => ?_
    cases result with
    | ok text => exact .pure _
    | error fault => exact .fail _

theorem Binary.local_sum (x y : Value) : (Binary.sum x y).Local := by
  unfold Binary.sum
  split
  · exact .arithmetic _
  · exact .pure _
  · exact .pure _
  · exact .fail _

theorem Binary.local_onNumbers (operation : Number → Number → Except ArithmeticFault Number)
    (x y : Value) : (Binary.onNumbers operation x y).Local :=
  (Local.ofExcept _).bind fun _ => (Local.ofExcept _).bind fun _ => .arithmetic _

theorem Binary.local_composed (f g : Value) : (Binary.composed f g).Local := by
  unfold Binary.composed
  split
  · exact .fail _
  · split
    · exact .fail _
    · exact .pure _

theorem Binary.local_run (apply : Applier) {op : Binary} (hop : op ≠ .readWithMacro)
    (x y : Value) : (op.run apply x y).Local := by
  cases op with
  | and | or | implies | equal | unequal => exact .pure _
  | compare c => exact c.local_run x y
  | add => exact Binary.local_sum x y
  | sub | mul | div | mod => exact Binary.local_onNumbers _ x y
  | cons | append => exact (Local.ofExcept _).bind fun _ => .pure _
  | compose => exact Binary.local_composed x y
  | readWithMacro => exact absurd rfl hop
  | writeFile =>
    refine (Local.ofExcept _).bind fun path => (Local.ofExcept _).bind fun text => ?_
    refine (Local.writeFile path text).bind fun result => ?_
    cases result with
    | ok _ => exact .pure _
    | error fault => exact .fail _

theorem Binary.run_eq_run (apply apply' : Applier) {op : Binary} (hop : op ≠ .readWithMacro)
    (x y : Value) : op.run apply x y = op.run apply' x y := by
  cases op <;> first | rfl | exact absurd rfl hop

theorem local_callFrame (c : Closure) (args : List Value) (expression : Option String) :
    (c.callFrame args expression).Local := by
  unfold Closure.callFrame
  split
  · exact .newFrame _ _
  · exact .fail _

namespace Run
variable {α β : Type} {m : Run α}

/-- The run has a result or an error in every world; it is not cut off. -/
def Finishes (m : Run α) : Prop := ∀ w, ∃ o w', m.Ends w o w'

namespace Finishes

theorem pure (a : α) : (Pure.pure a : Run α).Finishes := fun _ => ⟨.ok a, _, rfl⟩

theorem fail (e : Error) : (Run.fail e : Run α).Finishes := fun _ => ⟨.error e, _, rfl⟩

theorem ofExcept (result : Except Error α) : (Run.ofExcept result).Finishes :=
  fun w => ⟨result, w, ends_ofExcept.2 ⟨rfl, rfl⟩⟩

theorem parsed (result : Except ParseError α) : (Run.parsed result).Finishes :=
  fun w => ⟨_, w, ends_parsed.2 ⟨rfl, rfl⟩⟩

theorem bind {f : α → Run β} (hm : m.Finishes) (hf : ∀ a, (f a).Finishes) :
    (m >>= f).Finishes := by
  intro w
  obtain ⟨o, w₁, h⟩ := hm w
  cases o with
  | ok a =>
    obtain ⟨o, w', h'⟩ := hf a w₁
    exact ⟨o, w', ends_bind_ok h h'⟩
  | error e => exact ⟨.error e, w₁, ends_bind_error h⟩

theorem arithmetic (result : Except ArithmeticFault Number) : (Run.arithmetic result).Finishes := by
  cases result with
  | ok n => exact pure _
  | error fault => exact fail _

theorem readLine? : Run.readLine?.Finishes := by
  intro w
  cases h : w.console.readLine? with
  | none => exact ⟨.ok none, w, by simp only [Ends, readLine?_apply, h]⟩
  | some read =>
    exact ⟨.ok (some read.1), { w with console := read.2 }, by simp only [Ends, readLine?_apply, h]⟩

theorem writeFile (path text : String) : (Run.writeFile path text).Finishes := by
  intro w
  cases h : w.disk.write path text with
  | ok disk => exact ⟨.ok (.ok ()), { w with disk }, by simp only [Ends, writeFile_apply, h]⟩
  | error fault => exact ⟨.ok (.error fault), w, by simp only [Ends, writeFile_apply, h]⟩

theorem readExpression (prompt : String) : (Run.readExpression prompt).Finishes := by
  have hprint : (Run.print prompt).Finishes := fun w => ⟨.ok (), _, rfl⟩
  refine hprint.bind fun _ => readLine?.bind fun line => ?_
  match line with
  | some (.text line) => exact parsed _
  | some .garbled => exact fail _
  | none => exact parsed _

theorem readText (x : Value) : (Run.ofExcept x.toText >>= Run.readExpression).Finishes :=
  (ofExcept _).bind fun _ => readExpression _

end Finishes

end Run

theorem Unary.finishes (op : Unary) (x : Value) : (op.run x).Finishes := by
  cases op with
  | not | isList | isAtom => exact .pure _
  | increment | double => exact (Finishes.ofExcept _).bind fun _ => .arithmetic _
  | head | tail => exact (Finishes.ofExcept _).bind fun _ => .pure _
  | help => cases x <;> exact .pure _
  | sleep =>
    refine (Finishes.ofExcept _).bind fun seconds => ?_
    split
    · exact .pure _
    · exact .fail _
  | read => exact (Finishes.ofExcept _).bind fun _ => .readExpression _
  | readFile =>
    have hread (path : String) : (Run.readFile path).Finishes := fun w => ⟨.ok _, w, rfl⟩
    refine (Finishes.ofExcept _).bind fun path => (hread path).bind fun result => ?_
    cases result with
    | ok text => exact .pure _
    | error fault => exact .fail _

theorem Comparison.finishes (c : Comparison) (x y : Value) : (c.run x y).Finishes := by
  unfold Comparison.run
  split
  · exact .pure _
  · exact .pure _
  · exact .fail _

theorem Binary.finishes_sum (x y : Value) : (Binary.sum x y).Finishes := by
  unfold Binary.sum
  split
  · exact .arithmetic _
  · exact .pure _
  · exact .pure _
  · exact .fail _

theorem Binary.finishes_composed (f g : Value) : (Binary.composed f g).Finishes := by
  unfold Binary.composed
  split
  · exact .fail _
  · split
    · exact .fail _
    · exact .pure _

theorem Binary.finishes (apply : Applier) {op : Binary} (hop : op ≠ .readWithMacro)
    (x y : Value) : (op.run apply x y).Finishes := by
  cases op with
  | and | or | implies | equal | unequal => exact .pure _
  | compare c => exact c.finishes x y
  | add => exact Binary.finishes_sum x y
  | sub | mul | div | mod =>
    exact (Finishes.ofExcept _).bind fun _ => (Finishes.ofExcept _).bind fun _ => .arithmetic _
  | cons | append => exact (Finishes.ofExcept _).bind fun _ => .pure _
  | compose => exact Binary.finishes_composed x y
  | readWithMacro => exact absurd rfl hop
  | writeFile =>
    refine (Finishes.ofExcept _).bind fun path => (Finishes.ofExcept _).bind fun text => ?_
    refine (Finishes.writeFile path text).bind fun result => ?_
    cases result with
    | ok _ => exact .pure _
    | error fault => exact .fail _

end Lisplet
