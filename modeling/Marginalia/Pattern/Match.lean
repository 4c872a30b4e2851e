import Marginalia.Pattern.Trial

/-!
# Matching

A pattern is matched by ordered choice with backtracking: `Pattern.run p k s` looks, in the order
of preference, for a way to match `p` at the place `s` from which the rest of the search `k`
succeeds, and answers with what `k` found.  A run of characters is matched by listing the places it
may reach, in the order of preference.  The rounds of any other repetition are counted, and beyond
the required ones a round is started only where the place has changed since the last one, so a body
that matches the empty text cannot go on for ever.

The rounds of a possessive repetition are held once they are made.  Where the last one fails, an
engine goes on from the place before it, or, if the engine carries a mark, from the mark.

## Main definitions

* `Pattern.runRequired`, `Pattern.runOptional`, `Pattern.runRounds` — the rounds of a repetition.
* `Pattern.run` — the matcher.
* `Pattern.Engine`, `Pattern.Engine.adapt` — engines without and with a mark.
-/

namespace Marginalia.Pattern

/-- The required rounds of a repetition of `body`, followed by `k`. -/
def runRequired (body : (Spot → Option Spot) → Spot → Option Spot) (k : Spot → Option Spot) :
    Nat → Spot → Option Spot
  | 0, s => k s
  | rounds + 1, s => body (runRequired body k rounds) s

/-- The optional rounds of a repetition of `body`, followed by `k`.  Here `count` rounds are done,
and `last` is the index of the place where the last optional round began.  There are at most as many
rounds still to come as the first list has elements. -/
def runOptional (body : (Spot → Option Spot) → Spot → Option Spot) (most : Option Nat)
    (greedy : Bool) (k : Spot → Option Spot) :
    List Char → Nat → Option Nat → Spot → Option Spot
  | [], _, _, _ => none
  | _ :: bound, count, last, s =>
    let more : Unit → Option Spot := fun _ =>
      if allowsMore most count && last != some s.index then
        body (runOptional body most greedy k bound (count + 1) (some s.index)) s
      else none
    if greedy then (more ()).or (k s) else (k s).or (more ())

/-- The rounds of a repetition of `body`, followed by `k`: first the required ones, then as many
more as the repetition allows. -/
def runRounds (body : (Spot → Option Spot) → Spot → Option Spot) (least : Nat) (most : Option Nat)
    (greedy : Bool) (k : Spot → Option Spot) : Spot → Option Spot :=
  runRequired body (fun s => runOptional body most greedy k (roundBound s) least none s) least

/-- Matches a pattern at a place and goes on with `k`, in the order of preference. -/
def run : Pattern → (Spot → Option Spot) → Spot → Option Spot
  | .empty, k, s => k s
  | .one set, k, s =>
    match s.rest with
    | c :: cs => if set.has c then k (s.step c cs) else none
    | [] => none
  | .anchor place, k, s => if place.holds s then k s else none
  | .seq p q, k, s => p.run (q.run k) s
  | .alt p q, k, s => (p.run k s).or (q.run k s)
  | .capture label p, k, s =>
    p.run (fun t => k { t with captures := (label, s.textTo t) :: t.captures }) s
  | .span set least most manner, k, s =>
    let places := s.reach set least most
    match manner with
    | .greedy => places.findSome? k
    | .lazy => places.reverse.findSome? k
    | .possessive | .marked => places.head?.bind k
  | .iterate p least most manner, k, s =>
    match manner with
    | .greedy => runRounds p.run least most true k s
    | .lazy => runRounds p.run least most false k s
    | .possessive => (holdRounds (fun t => (p.run some t, t)) least most s).bind k
    | .marked => (holdRounds p.attempt least most s).bind k
  | .look positive back p, k, s =>
    if s.index < back then (if positive then none else k s)
    else
      match p.run some (s.back back) with
      | some t => if positive then k { s with captures := t.captures } else none
      | none => if positive then none else k s
  | .atomic p, k, s => (p.run some s).bind k
  | .again label letters, k, s => (s.again? label letters).bind k
  | .given label yes no, k, s =>
    if (s.captured? label).isSome then yes.run k s else no.run k s

/-! ## Engines -/

/-- From where an engine goes on behind the failed round of a possessive repetition. -/
inductive Engine where
  /-- From the place where that round began. -/
  | standard
  /-- From the mark of that round. -/
  | marking
deriving Repr, DecidableEq

/-- A manner with the mark of a failed round in place of where it began. -/
def Manner.withMark : Manner → Manner
  | .possessive => .marked
  | manner => manner

/-- A pattern whose possessive repetitions go on from marks. -/
def withMarks : Pattern → Pattern
  | .seq p q => .seq p.withMarks q.withMarks
  | .alt p q => .alt p.withMarks q.withMarks
  | .capture label p => .capture label p.withMarks
  | .iterate p least most manner => .iterate p.withMarks least most manner.withMark
  | .look positive back p => .look positive back p.withMarks
  | .atomic p => .atomic p.withMarks
  | .given label yes no => .given label yes.withMarks no.withMarks
  | p => p

/-- A pattern as an engine understands it. -/
def Engine.adapt : Engine → Pattern → Pattern
  | .standard, p => p
  | .marking, p => p.withMarks

end Marginalia.Pattern
