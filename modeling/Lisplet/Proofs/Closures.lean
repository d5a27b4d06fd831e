import Lisplet.Proofs.Readable
import Lisplet.World

/-! Closures wherever they are held: in values, in errors and in what an operation of the host asks
for. -/
namespace Lisplet

inductive Value.Holds (c : Closure) : Value → Prop where
  | self : Holds c (.closure c)
  | body {d : Closure} (h : Holds c d.body) : Holds c (.closure d)
  | help {d : Closure} {v : Value} (hhelp : d.help = some v) (h : Holds c v) :
    Holds c (.closure d)
  | item {v : Value} {items : List Value} (hmem : v ∈ items) (h : Holds c v) :
    Holds c (.list items)
  | outer {f g : Value} (h : Holds c f) : Holds c (.builtin (.composed f g))
  | inner {f g : Value} (h : Holds c g) : Holds c (.builtin (.composed f g))

def Value.captured? : Value → Option FrameId
  | .closure c => some c.frame
  | _ => none

/-- Every closure in the value is in the set. -/
def Value.Within (S : Closure → Prop) (v : Value) : Prop := ∀ c, v.Holds c → S c

namespace Value.Within
variable {S T : Closure → Prop} {v : Value} {items : List Value}

theorem mono (hle : ∀ c, S c → T c) (h : v.Within S) : v.Within T :=
  fun c hc => hle c (h c hc)

theorem number (n : Number) : (Value.number n).Within S := fun _ hc => nomatch hc
theorem symbol (name : String) : (Value.symbol name).Within S := fun _ hc => nomatch hc
theorem string (text : String) : (Value.string text).Within S := fun _ hc => nomatch hc
theorem bool (b : Bool) : (Value.bool b).Within S := fun _ hc => nomatch hc
theorem unspecified : Value.unspecified.Within S := fun _ hc => nomatch hc

theorem list_iff : (Value.list items).Within S ↔ ∀ v ∈ items, v.Within S := by
  constructor
  · intro h v hv c hc
    exact h c (.item hv hc)
  · intro h c hc
    cases hc with
    | item hmem hc => exact h _ hmem c hc

theorem closure_iff {c : Closure} : (Value.closure c).Within S ↔
    S c ∧ c.body.Within S ∧ ∀ v, c.help = some v → v.Within S := by
  constructor
  · intro h
    exact ⟨h c .self, fun d hd => h d (.body hd), fun v hv d hd => h d (.help hv hd)⟩
  · rintro ⟨hself, hbody, hhelp⟩ d hd
    cases hd with
    | self => exact hself
    | body hd => exact hbody d hd
    | help hv hd => exact hhelp _ hv d hd

theorem composed_iff {f g : Value} :
    (Value.builtin (.composed f g)).Within S ↔ f.Within S ∧ g.Within S := by
  constructor
  · intro h
    exact ⟨fun c hc => h c (.outer hc), fun c hc => h c (.inner hc)⟩
  · rintro ⟨hf, hg⟩ c hc
    cases hc with
    | outer hc => exact hf c hc
    | inner hc => exact hg c hc

theorem of_readable {dialect : Dialect} {room : Nat} (h : Readable dialect room v) :
    v.Within S := by
  induction h with
  | number => exact .number _
  | symbol => exact .symbol _
  | @literal room text htext =>
    refine list_iff.2 fun w hw => ?_
    simp only [List.mem_cons, List.not_mem_nil, or_false] at hw
    obtain rfl | rfl := hw
    · exact .symbol _
    · exact .string _
  | list _ ih => exact list_iff.2 ih

end Value.Within

def Error.values : Error → List Value
  | .eval (.paramsNotList v) | .eval (.paramNotSymbol v) | .eval (.defineTarget v)
  | .eval (.noClause v) | .type (.notProcedure v) => [v]
  | _ => []

def Error.Within (S : Closure → Prop) (e : Error) : Prop := ∀ v ∈ e.values, v.Within S

def OutcomeWithin (S : Closure → Prop) : Except Error Value → Prop
  | .ok v => v.Within S
  | .error e => e.Within S

theorem Error.Within.mono {S T : Closure → Prop} {e : Error} (hle : ∀ c, S c → T c)
    (h : e.Within S) : e.Within T := fun v hv => (h v hv).mono hle

theorem OutcomeWithin.mono {S T : Closure → Prop} (hle : ∀ c, S c → T c) :
    ∀ {result : Except Error Value}, OutcomeWithin S result → OutcomeWithin T result
  | .ok _, h => Value.Within.mono hle h
  | .error _, h => Error.Within.mono hle h

/-- An operation's reply holds no closures but those it was given, also in what it does next. -/
inductive Reply.Draws : (Closure → Prop) → Reply → Prop where
  | finish {S : Closure → Prop} {result : Except Error Value} (h : OutcomeWithin S result) :
    Draws S (.finish result)
  | call {S : Closure → Prop} {f : Value} {args : List Value}
    {resume : Except Error Value → Reply} (hf : f.Within S) (hargs : ∀ v ∈ args, v.Within S)
    (hresume : ∀ T, (∀ c, S c → T c) → ∀ result, OutcomeWithin T result → Draws T (resume result)) :
    Draws S (.call f args resume)

def HostOperation.Draws (operation : HostOperation) : Prop :=
  ∀ S args, (∀ v ∈ args, v.Within S) → (operation args).Draws S

end Lisplet
