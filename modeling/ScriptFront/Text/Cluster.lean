import ScriptFront.Text.BreakClass

/-!
# Clusters

What a reader takes for one character may be several: a letter with its marks,
a syllable, a flag, pictographs that are joined. A text falls into such
clusters in one way (`clusters`), and nothing of it is lost (`flatten_clusters`).

A cluster ends where the next character is not held by those before it
(`holds`):

* nothing holds a control and a control holds nothing, but a carriage return
  holds a line feed;
* the parts of a syllable of Hangul hold each other;
* a mark is held by whatever is before it, and a prepended sign holds whatever
  is after it;
* a consonant with a linker, and perhaps other marks, holds a consonant;
* a pictograph, perhaps with marks, and a joiner after it hold a pictograph;
* one half of a flag holds the other.
-/

namespace ScriptFront.Text

namespace BreakClass

/-- Whether a class is one of the controls. -/
def isControl : BreakClass → Bool
  | carriageReturn | lineFeed | control => true
  | _ => false

/-- Whether the characters of a class extend the one before them. -/
def isExtending : BreakClass → Bool
  | extend | nonJoiner | linker => true
  | _ => false

/-- Whether the characters of a class may stand between linked consonants. -/
def isLinking : BreakClass → Bool
  | extend | linker | joiner => true
  | _ => false

/-- Whether `next` goes on with the syllable of Hangul that `last` is in. -/
def holdsSyllable (last next : BreakClass) : Bool :=
  match last, next with
  | leading, leading | leading, vowel | leading, openSyllable | leading, closedSyllable => true
  | openSyllable, vowel | openSyllable, trailing | vowel, vowel | vowel, trailing => true
  | closedSyllable, trailing | trailing, trailing => true
  | _, _ => false

/-- Whether the classes `before`, the nearest first, end with a linked
    consonant. -/
def endsLinked (before : List BreakClass) : Bool :=
  (before.takeWhile isLinking).contains linker &&
    (before.dropWhile isLinking).head? == some consonant

/-- Whether the classes `before`, the nearest first, end with a pictograph that
    is joined to the next. -/
def endsJoined : List BreakClass → Bool
  | joiner :: before => (before.dropWhile isExtending).head? == some pictograph
  | _ => false

/-- Whether the classes `before`, the nearest first, end with the first half of
    a flag. -/
def endsHalved (before : List BreakClass) : Bool :=
  (before.takeWhile (· == regional)).length % 2 == 1

/-- Whether a cluster of the classes `before`, the nearest first, holds a
    character of the class `next`. -/
def holds (before : List BreakClass) (next : BreakClass) : Bool :=
  match before with
  | [] => false
  | last :: _ =>
    if last.isControl || next.isControl then last == carriageReturn && next == lineFeed
    else
      next.isExtending || next == joiner || next == spacingMark || last == prepended ||
        holdsSyllable last next || (next == consonant && endsLinked before) ||
        (next == pictograph && endsJoined before) || (next == regional && endsHalved before)

end BreakClass

/-- The clusters of a text, where `cluster` and `classes` are the characters of
    the cluster before it and their classes, the nearest first. -/
def clustersFrom (cluster : List Char) (classes : List BreakClass) : List Char → List (List Char)
  | [] => [cluster.reverse]
  | c :: cs =>
    let k := breakClass c
    if BreakClass.holds classes k then clustersFrom (c :: cluster) (k :: classes) cs
    else cluster.reverse :: clustersFrom [c] [k] cs

/-- The clusters of a text. -/
def clusters : List Char → List (List Char)
  | [] => []
  | c :: cs => clustersFrom [c] [breakClass c] cs

theorem flatten_clustersFrom (cluster : List Char) (classes : List BreakClass) (cs : List Char) :
    (clustersFrom cluster classes cs).flatten = cluster.reverse ++ cs := by
  induction cs generalizing cluster classes with
  | nil => simp [clustersFrom]
  | cons c cs ih =>
    unfold clustersFrom
    dsimp only
    split
    · simp [ih]
    · simp [ih]

/-- The clusters of a text make up the text. -/
theorem flatten_clusters (cs : List Char) : (clusters cs).flatten = cs := by
  cases cs with
  | nil => rfl
  | cons c cs => exact flatten_clustersFrom _ _ cs

example : clusters "e\u0301\u0915\u094d\u0937".toList =
    [['e', '\u0301'], ['\u0915', '\u094d', '\u0937']] := by decide +kernel

end ScriptFront.Text
