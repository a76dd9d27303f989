import TwoPass.Text.Basic

/-
  Names that look alike. Two texts are compared by the characters they share in order: the
  longest common run, then the same to the left and to the right of it. Twice the number of
  shared characters over the total length is the score, and a score of three fifths is alike.
  In a name of 200 characters or more, a character that fills more than a hundredth of it starts
  no run and only lengthens one.
-/

namespace TwoPass.Similar

/-- A common run: where it starts in either text, and its length. -/
structure Run where
  left : Nat
  right : Nat
  size : Nat

/-- The lengths of the common runs that end at a character `c` of the left text and at each
    character of the right one, from those at the character before `c`; `before` is the length that
    ends one place before in both. -/
def runsAt (starts : Char → Bool) (c : Char) : (before : Nat) → List Nat → Text → List Nat
  | before, n :: ns, d :: ds =>
    (if d = c && starts d then before + 1 else 0) :: runsAt starts c n ns ds
  | _, _, _ => []

/-- The first of the longest runs, if one of `ns` is longer than `best`; they end at `left` in the
    left text and from `right` on in the right one. -/
def pickRun (left : Nat) : (right : Nat) → List Nat → Run → Run
  | _, [], best => best
  | right, n :: ns, best =>
    pickRun left (right + 1) ns
      (if best.size < n then { left := left + 1 - n, right := right + 1 - n, size := n } else best)

def longestFrom (starts : Char → Bool) (b : Text) : (left : Nat) → List Nat → Text → Run → Run
  | _, _, [], best => best
  | left, ns, c :: cs, best =>
    let row := runsAt starts c 0 ns b
    longestFrom starts b (left + 1) row cs (pickRun left 0 row best)

/-- How many leading characters two texts have in common. -/
def commonLength : Text → Text → Nat
  | c :: cs, d :: ds => if c = d then commonLength cs ds + 1 else 0
  | _, _ => 0

/-- The longest common run, lengthened on both sides by any equal characters. -/
def longest (starts : Char → Bool) (a b : Text) : Run :=
  let run := longestFrom starts b 0 (b.map fun _ => 0) a { left := 0, right := 0, size := 0 }
  let before := commonLength (a.take run.left).reverse (b.take run.right).reverse
  let behind := commonLength (a.drop (run.left + run.size)) (b.drop (run.right + run.size))
  { left := run.left - before, right := run.right - before, size := before + run.size + behind }

/-- The characters two texts share; each run found shortens both, so `a.length` rounds do. -/
def sharedWithin (starts : Char → Bool) : (rounds : Nat) → Text → Text → Nat
  | 0, _, _ => 0
  | rounds + 1, a, b =>
    let run := longest starts a b
    if run.size = 0 then 0
    else
      sharedWithin starts rounds (a.take run.left) (b.take run.right) + run.size +
        sharedWithin starts rounds (a.drop (run.left + run.size)) (b.drop (run.right + run.size))

/-- Whether a character of `name` is rare enough to start a run. -/
def startsRun (name : Text) (c : Char) : Bool :=
  name.length < 200 || name.count c ≤ name.length / 100 + 1

def shared (candidate name : Text) : Nat :=
  sharedWithin (startsRun name) candidate.length candidate name

/-- A candidate with its score, as a fraction. -/
structure Scored where
  shared : Nat
  total : Nat
  name : Text

def Scored.isAlike (s : Scored) : Bool := 3 * s.total ≤ 10 * s.shared

/-- Whether a text stands before another in code point order. -/
def precedes (a b : Text) : Bool := List.lex a b fun c d => c.toNat < d.toNat

/-- Higher scores first, and of equal scores the later name in code point order. -/
def Scored.before (s t : Scored) : Bool :=
  t.shared * s.total < s.shared * t.total ||
    (t.shared * s.total == s.shared * t.total && !precedes s.name t.name)

/-- At most three of the candidates, those most like the name first. -/
def closest (name : Text) (candidates : List Text) : List Text :=
  let scored := candidates.map fun c =>
    { shared := shared c name, total := c.length + name.length, name := c : Scored }
  (((scored.filter Scored.isAlike).mergeSort Scored.before).take 3).map Scored.name

end TwoPass.Similar
