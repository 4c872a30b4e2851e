import Marginalia.Pattern.Spot

/-!
# Trials

A possessive repetition tries its body round after round, each in its preferred way only, until a
trial fails; then it goes on from the place where that trial began.  Engines that carry a mark go on
from the mark of the failed trial instead, which need not be that place.  A trial sets the mark
wherever it has a choice to make, and where it ends; single characters, conditions on places and
captures leave the mark alone.  So a trial that fails behind its last choice leaves the mark at that
choice.

Where the next step of a pattern is one character, choices that this character rules out are passed
over without a mark.

## Main definitions

* `Pattern.Trial` — a search that carries its mark.
* `Pattern.track` — tries a pattern, and then what follows it.
* `Pattern.attempt` — tries a pattern alone.
* `Pattern.holdRounds` — the rounds of a possessive repetition.
-/

namespace Marginalia.Pattern

/-- Whether one more round may follow `count` rounds. -/
def allowsMore (most : Option Nat) (count : Nat) : Bool :=
  match most with
  | some m => decide (count < m)
  | none => true

/-- A list with as many elements as optional rounds never exceed: one for each character left, one
that matches the empty text, and one to end with. -/
def roundBound (s : Spot) : List Char := ' ' :: ' ' :: s.rest

/-! ## Possessive repetitions -/

/-- The required rounds of a possessive repetition.  Here `attempt` gives the place behind a round,
if there is one, and the mark. -/
def holdRequired (attempt : Spot → Option Spot × Spot) : Nat → Spot → Option Spot
  | 0, s => some s
  | rounds + 1, s =>
    match (attempt s).1 with
    | some t => holdRequired attempt rounds t
    | none => none

/-- The optional rounds of a possessive repetition.  Here `count` rounds are done, and `last` is the
index of the place where the last optional round began.  There are at most as many rounds still to
come as the first list has elements. -/
def holdOptional (attempt : Spot → Option Spot × Spot) (most : Option Nat) :
    List Char → Nat → Option Nat → Spot → Spot
  | [], _, _, s => s
  | _ :: bound, count, last, s =>
    if allowsMore most count && last != some s.index then
      match attempt s with
      | (some t, _) => holdOptional attempt most bound (count + 1) (some s.index) t
      | (none, mark) => { mark with captures := s.captures }
    else s

/-- The place behind the rounds of a possessive repetition: first the required ones, then as many
more as succeed. -/
def holdRounds (attempt : Spot → Option Spot × Spot) (least : Nat) (most : Option Nat) (s : Spot) :
    Option Spot :=
  (holdRequired attempt least s).map fun t =>
    holdOptional attempt most (roundBound t) least none t

/-! ## What comes next -/

/-- The class of characters that a pattern starts with, if its first step is one character.  An
empty pattern starts with what follows it, which is `next`. -/
def leading : Pattern → Option CharClass → Option CharClass
  | .empty, next => next
  | .one set, _ => some set
  | .seq p q, next => p.leading (q.leading next)
  | _, _ => none

/-- The only character of a class that is given by it. -/
def CharClass.only? : CharClass → Option Char
  | ⟨false, [.char c]⟩ => some c
  | _ => none

/-- Whether a class is looked up before an alternative that starts with it.  Classes that leave out
one character at most are not, and neither are classes up to case. -/
def CharClass.foreseen (set : CharClass) : Bool :=
  let plain := set.items.all fun item => match item with
    | .anyCase .. => false
    | _ => true
  plain && match set with
    | ⟨true, []⟩ | ⟨true, [.char _]⟩ => false
    | _ => true

/-- Whether the next character rules out an alternative. -/
def rulesOut (s : Spot) (p : Pattern) : Bool :=
  match p.leading none with
  | some set => set.foreseen && !s.sees set.has
  | none => false

/-- The places from which one can go on, if the next step is one character of the class `next`. -/
def promising (next : Option CharClass) (places : List Spot) : List Spot :=
  match next.bind CharClass.only? with
  | some c => places.filter (·.sees (· == c))
  | none => places

/-- Whether a pattern is a choice between alternatives. -/
def isChoice : Pattern → Bool
  | .alt .. => true
  | _ => false

/-! ## Trials -/

/-- A search that carries its mark. -/
abbrev Trial := OptionT (StateM Spot) Spot

namespace Trial

/-- Sets the mark and goes on from there. -/
def goFrom (k : Spot → Trial) (s : Spot) : Trial := do
  set s
  k s

/-- The end of a trial. -/
def finish : Spot → Trial := goFrom pure

/-- What a trial finds, and its mark, if the mark is set to `s` first. -/
def outcome (trial : Trial) (s : Spot) : Option Spot × Spot := (OptionT.run trial) s

/-- Sets the mark and fails. -/
def failAt (s : Spot) : Trial := goFrom (fun _ => failure) s

/-- Goes on from the first of several places from which the rest succeeds. -/
def goFromFirst (k : Spot → Trial) : List Spot → Trial
  | [] => failure
  | t :: ts => goFrom k t <|> goFromFirst k ts

/-- The required rounds of a repetition of `body`, followed by `k`. -/
def required (body : (Spot → Trial) → Spot → Trial) (k : Spot → Trial) : Nat → Spot → Trial
  | 0, s => k s
  | rounds + 1, s => body (required body k rounds) s

/-- The optional rounds of a repetition of `body`, followed by `k`; the other arguments are those of
`holdOptional`. -/
def optional (body : (Spot → Trial) → Spot → Trial) (most : Option Nat) (greedy : Bool)
    (k : Spot → Trial) : List Char → Nat → Option Nat → Spot → Trial
  | [], _, _, _ => failure
  | _ :: bound, count, last, s =>
    let more : Unit → Trial := fun _ =>
      if allowsMore most count && last != some s.index then
        body (optional body most greedy k bound (count + 1) (some s.index)) s
      else failure
    if greedy then more () <|> k s else k s <|> more ()

/-- A run of characters of a class, followed by `k`, which starts with the class `next`.  Where too
few characters are left, the mark is not set. -/
def along (set : CharClass) (least : Nat) (most : Option Nat) (manner : Manner)
    (next : Option CharClass) (k : Spot → Trial) (s : Spot) : Trial :=
  if s.rest.length < least then failure
  else
    match s.reach set least most with
    | [] => failAt s
    | farthest :: places =>
      match manner with
      | .greedy => goFrom (fun _ => goFromFirst k (promising next (farthest :: places))) s
      | .lazy => goFromFirst k (farthest :: places).reverse <|> failAt farthest
      | .possessive | .marked => goFrom (fun _ => k farthest) s

end Trial

open Trial

/-- Tries a pattern at a place, and then `k`, which starts with the class `next`. -/
def track : Pattern → Option CharClass → (Spot → Trial) → Spot → Trial
  | .empty, _, k, s => k s
  | .one set, _, k, s =>
    match s.rest with
    | c :: cs => if set.has c then k (s.step c cs) else failure
    | [] => failure
  | .anchor place, _, k, s => if place.holds s then k s else failure
  | .seq p q, next, k, s => p.track (q.leading next) (q.track next k) s
  | .alt p q, _, k, s =>
    let left : Trial := if rulesOut s p then failure else goFrom (p.track none k) s
    let right : Unit → Trial := fun _ =>
      if q.isChoice then q.track none k s
      else if rulesOut s q then failure
      else goFrom (q.track none k) s
    left <|> right ()
  | .capture label p, _, k, s =>
    p.track none (fun t => k { t with captures := (label, s.textTo t) :: t.captures }) s
  | .span set least most manner, next, k, s => Trial.along set least most manner next k s
  | .iterate p least most manner, _, k, s =>
    match manner with
    | .possessive | .marked =>
      match holdRounds (fun t => outcome (p.track none finish t) t) least most s with
      | some t => goFrom k t
      | none => failAt s
    | _ =>
      let rest (t : Spot) : Trial :=
        Trial.optional (p.track none) most (manner == .greedy) k (roundBound t) least none t
      required (p.track none) rest least s <|> failAt s
  | .look positive back p, _, k, s =>
    if s.index < back then (if positive then failure else k s)
    else
      match outcome (p.track none finish (s.back back)) (s.back back) with
      | (some t, mark) =>
        goFrom (fun _ => if positive then k { s with captures := t.captures } else failure) mark
      | (none, mark) => goFrom (fun _ => if positive then failure else k s) mark
  | .atomic p, _, k, s =>
    match (outcome (p.track none finish s) s).1 with
    | some t => goFrom k t
    | none => failAt s
  | .again label letters, _, k, s =>
    match s.again? label letters with
    | some t => k t
    | none => failure
  | .given label yes no, next, k, s =>
    if (s.captured? label).isSome then yes.track (if no == .empty then next else none) k s
    else no.track next k s

/-- Tries a pattern alone: the place behind its preferred match, if there is one, and the mark. -/
def attempt (p : Pattern) (s : Spot) : Option Spot × Spot := outcome (p.track none finish s) s

end Marginalia.Pattern
