import Mathlib.Data.List.Basic

/-!
# JSON of strings

Strings, arrays and objects, without numbers, literals and `\u`. A text denotes a value if its
tokens are those of the value, and it denotes one at most (`Denotes.unique`). In a string no control
character may stand as it is.

What a writer puts together is followed piece by piece (`Writes`): the tokens that a piece is, if it
is any.
-/

namespace MiniTSDB
namespace Lib

inductive Json
  | str (text : List UInt8)
  | arr (items : List Json)
  | obj (members : List (List UInt8 × Json))

namespace Json

inductive Token
  | mark (c : UInt8)
  | str (text : List UInt8)
  deriving DecidableEq, Repr

abbrev quote : UInt8 := 34
abbrev backslash : UInt8 := 92
abbrev comma : UInt8 := 44
abbrev colon : UInt8 := 58
abbrev openArr : UInt8 := 91
abbrev closeArr : UInt8 := 93
abbrev openObj : UInt8 := 123
abbrev closeObj : UInt8 := 125

def isMark (c : UInt8) : Bool :=
  c = comma || c = colon || c = openArr || c = closeArr || c = openObj || c = closeObj

def isSpace (c : UInt8) : Bool := c = 32 || c = 9 || c = 10 || c = 13

/-- A control character, which has to be escaped. -/
def isControl (c : UInt8) : Bool := c < 32

/-! ## The tokens of a value -/

mutual

def tokens : Json → List Token
  | .str text => [.str text]
  | .arr items => .mark openArr :: itemTokens items ++ [.mark closeArr]
  | .obj members => .mark openObj :: memberTokens members ++ [.mark closeObj]

def itemTokens : List Json → List Token
  | [] => []
  | item :: rest => item.tokens ++ moreItems rest

def moreItems : List Json → List Token
  | [] => []
  | item :: rest => .mark comma :: item.tokens ++ moreItems rest

def memberTokens : List (List UInt8 × Json) → List Token
  | [] => []
  | (name, value) :: rest => .str name :: .mark colon :: value.tokens ++ moreMembers rest

def moreMembers : List (List UInt8 × Json) → List Token
  | [] => []
  | (name, value) :: rest =>
    .mark comma :: .str name :: .mark colon :: value.tokens ++ moreMembers rest

end

/-- No value begins with a bracket that closes. -/
theorem tokens_ne_close (a : Json) (r r' : List Token) :
    a.tokens ++ r ≠ .mark closeArr :: r' := by
  cases a with
  | str text => simp [tokens]
  | arr items => simp [tokens, show openArr ≠ closeArr by decide]
  | obj members => simp [tokens, show openObj ≠ closeArr by decide]

mutual

/-- **No value is the beginning of another.** -/
theorem tokens_cancel : ∀ (a b : Json) (r r' : List Token), a.tokens ++ r = b.tokens ++ r' →
    a = b ∧ r = r'
  | .str text, b, r, r', h => by
    cases b with
    | str text' =>
      simp only [tokens, List.cons_append, List.nil_append, List.cons.injEq, Token.str.injEq] at h
      rw [h.1, h.2]
      exact ⟨rfl, rfl⟩
    | arr items => simp [tokens] at h
    | obj members => simp [tokens] at h
  | .arr items, b, r, r', h => by
    cases b with
    | str text => simp [tokens] at h
    | arr items' =>
      simp only [tokens, List.cons_append, List.append_assoc, List.nil_append, List.cons.injEq,
        true_and] at h
      obtain ⟨rfl, rfl⟩ := itemTokens_cancel items items' r r' h
      exact ⟨rfl, rfl⟩
    | obj members => simp [tokens, show openArr ≠ openObj by decide] at h
  | .obj members, b, r, r', h => by
    cases b with
    | str text => simp [tokens] at h
    | arr items => simp [tokens, show openObj ≠ openArr by decide] at h
    | obj members' =>
      simp only [tokens, List.cons_append, List.append_assoc, List.nil_append, List.cons.injEq,
        true_and] at h
      obtain ⟨rfl, rfl⟩ := memberTokens_cancel members members' r r' h
      exact ⟨rfl, rfl⟩

theorem itemTokens_cancel : ∀ (xs ys : List Json) (r r' : List Token),
    itemTokens xs ++ .mark closeArr :: r = itemTokens ys ++ .mark closeArr :: r' →
      xs = ys ∧ r = r'
  | [], [], r, r', h => ⟨rfl, (List.cons.inj h).2⟩
  | [], y :: ys, r, r', h => by
    rw [itemTokens, itemTokens, List.append_assoc] at h
    exact absurd h.symm (tokens_ne_close y _ _)
  | x :: xs, [], r, r', h => by
    rw [itemTokens, itemTokens, List.append_assoc] at h
    exact absurd h (tokens_ne_close x _ _)
  | x :: xs, y :: ys, r, r', h => by
    rw [itemTokens, itemTokens, List.append_assoc, List.append_assoc] at h
    obtain ⟨rfl, hrest⟩ := tokens_cancel x y _ _ h
    obtain ⟨rfl, hr⟩ := moreItems_cancel xs ys r r' hrest
    exact ⟨rfl, hr⟩

theorem moreItems_cancel : ∀ (xs ys : List Json) (r r' : List Token),
    moreItems xs ++ .mark closeArr :: r = moreItems ys ++ .mark closeArr :: r' → xs = ys ∧ r = r'
  | [], [], r, r', h => ⟨rfl, (List.cons.inj h).2⟩
  | [], y :: ys, r, r', h => by simp [moreItems, show closeArr ≠ comma by decide] at h
  | x :: xs, [], r, r', h => by simp [moreItems, show comma ≠ closeArr by decide] at h
  | x :: xs, y :: ys, r, r', h => by
    simp only [moreItems, List.cons_append, List.append_assoc, List.cons.injEq, true_and] at h
    obtain ⟨rfl, hrest⟩ := tokens_cancel x y _ _ h
    obtain ⟨rfl, hr⟩ := moreItems_cancel xs ys r r' hrest
    exact ⟨rfl, hr⟩

theorem memberTokens_cancel : ∀ (xs ys : List (List UInt8 × Json)) (r r' : List Token),
    memberTokens xs ++ .mark closeObj :: r = memberTokens ys ++ .mark closeObj :: r' →
      xs = ys ∧ r = r'
  | [], [], r, r', h => ⟨rfl, (List.cons.inj h).2⟩
  | [], (name, value) :: ys, r, r', h => by simp [memberTokens] at h
  | (name, value) :: xs, [], r, r', h => by simp [memberTokens] at h
  | (name, value) :: xs, (name', value') :: ys, r, r', h => by
    simp only [memberTokens, List.cons_append, List.append_assoc, List.cons.injEq,
      Token.str.injEq, true_and] at h
    obtain ⟨rfl, hrest⟩ := tokens_cancel value value' _ _ h.2
    obtain ⟨rfl, hr⟩ := moreMembers_cancel xs ys r r' hrest
    rw [h.1]
    exact ⟨rfl, hr⟩

theorem moreMembers_cancel : ∀ (xs ys : List (List UInt8 × Json)) (r r' : List Token),
    moreMembers xs ++ .mark closeObj :: r = moreMembers ys ++ .mark closeObj :: r' →
      xs = ys ∧ r = r'
  | [], [], r, r', h => ⟨rfl, (List.cons.inj h).2⟩
  | [], (name, value) :: ys, r, r', h => by
    simp [moreMembers, show closeObj ≠ comma by decide] at h
  | (name, value) :: xs, [], r, r', h => by
    simp [moreMembers, show comma ≠ closeObj by decide] at h
  | (name, value) :: xs, (name', value') :: ys, r, r', h => by
    simp only [moreMembers, List.cons_append, List.append_assoc, List.cons.injEq,
      Token.str.injEq, true_and] at h
    obtain ⟨rfl, hrest⟩ := tokens_cancel value value' _ _ h.2
    obtain ⟨rfl, hr⟩ := moreMembers_cancel xs ys r r' hrest
    rw [h.1]
    exact ⟨rfl, hr⟩

end

theorem tokens_injective {a b : Json} (h : a.tokens = b.tokens) : a = b :=
  (tokens_cancel a b [] [] (by rw [h])).1

/-! ## Reading tokens -/

/-- Where the reader is: between tokens, in a string, or behind a backslash in it. -/
inductive Place
  | between
  | within (text : List UInt8)
  | escaped (text : List UInt8)
  deriving DecidableEq, Repr

structure State where
  found : List Token
  place : Place
  deriving DecidableEq, Repr

/-- What a character stands for behind a backslash. -/
def unescape (c : UInt8) : Option UInt8 :=
  if c = quote || c = backslash || c = 47 then some c
  else if c = 98 then some 8
  else if c = 102 then some 12
  else if c = 110 then some 10
  else if c = 114 then some 13
  else if c = 116 then some 9
  else none

/-- One character; `none` where it may not stand. -/
def State.step (s : State) (c : UInt8) : Option State :=
  match s.place with
  | .between =>
    if isSpace c then some s
    else if isMark c then some { s with found := s.found ++ [.mark c] }
    else if c = quote then some { s with place := .within [] }
    else none
  | .within text =>
    if c = quote then some { found := s.found ++ [.str text], place := .between }
    else if c = backslash then some { s with place := .escaped text }
    else if isControl c then none
    else some { s with place := .within (text ++ [c]) }
  | .escaped text => (unescape c).map fun c => { s with place := .within (text ++ [c]) }

/-- The text denotes the value. -/
def Denotes (text : List UInt8) (value : Json) : Prop :=
  text.foldlM State.step { found := [], place := .between }
    = some { found := value.tokens, place := .between }

/-- **A text denotes one value at most.** -/
theorem Denotes.unique {text : List UInt8} {a b : Json} (ha : Denotes text a)
    (hb : Denotes text b) : a = b := by
  apply tokens_injective
  unfold Denotes at ha hb
  rw [ha] at hb
  exact congrArg State.found (Option.some.inj hb)

/-! ## Writing -/

/-- The piece of text is these tokens, or, if it is not `ok`, none at all. -/
def Writes (text : List UInt8) (ok : Bool) (written : List Token) : Prop :=
  ∀ found, text.foldlM State.step { found := found, place := .between }
    = if ok then some { found := found ++ written, place := .between } else none

section Writes

variable {text text' : List UInt8} {ok ok' : Bool} {written written' : List Token}

theorem Writes.append (h : Writes text ok written) (h' : Writes text' ok' written') :
    Writes (text ++ text') (ok && ok') (written ++ written') := by
  intro found
  rw [List.foldlM_append, h found]
  cases ok with
  | false => rfl
  | true =>
    show text'.foldlM State.step { found := found ++ written, place := .between } = _
    rw [h' (found ++ written), Bool.true_and, List.append_assoc]

/-- Spaces and marks are written as they are. -/
theorem writes_punctuation (h : (text.all fun c => isSpace c || isMark c) = true) :
    Writes text true ((text.filter fun c => !isSpace c).map .mark) := by
  rw [List.all_eq_true] at h
  induction text with
  | nil =>
    intro found
    simp
  | cons c text ih =>
    obtain ⟨hc, hrest⟩ := List.forall_mem_cons.mp h
    intro found
    rw [List.foldlM_cons]
    by_cases hspace : isSpace c = true
    · have hstep : (State.mk found .between).step c
          = some { found := found, place := .between } := by
        unfold State.step
        exact if_pos hspace
      have hkept : (c :: text).filter (fun c => !isSpace c) = text.filter fun c => !isSpace c := by
        simp [hspace]
      rw [hstep, hkept]
      exact ih hrest found
    · have hmark : isMark c = true := by
        rw [Bool.not_eq_true _ |>.mp hspace, Bool.false_or] at hc
        exact hc
      have hstep : (State.mk found .between).step c
          = some { found := found ++ [.mark c], place := .between } := by
        unfold State.step
        dsimp only
        rw [if_neg hspace, if_pos hmark]
      have hkept : (c :: text).filter (fun c => !isSpace c)
          = c :: text.filter fun c => !isSpace c := by
        simp [hspace]
      rw [hstep, hkept]
      show text.foldlM State.step { found := found ++ [Token.mark c], place := .between } = _
      rw [ih hrest (found ++ [Token.mark c])]
      simp

/-- A character as it may stand in a string. -/
def escape (c : UInt8) : List UInt8 :=
  if c = quote then [backslash, quote]
  else if c = backslash then [backslash, backslash]
  else if c = 10 then [backslash, 110]
  else if c = 13 then [backslash, 114]
  else if c = 9 then [backslash, 116]
  else [c]

/-- The character can be escaped, or need not be. -/
def isClean (c : UInt8) : Bool := !isControl c || c = 10 || c = 13 || c = 9

theorem step_escape (found : List Token) (front : List UInt8) (c : UInt8) :
    (escape c).foldlM State.step { found := found, place := .within front }
      = if isClean c then some { found := found, place := .within (front ++ [c]) } else none := by
  unfold escape
  by_cases hquote : c = quote
  · subst hquote
    rfl
  by_cases hbackslash : c = backslash
  · subst hbackslash
    rfl
  by_cases hnewline : c = 10
  · subst hnewline
    rfl
  by_cases hreturn : c = 13
  · subst hreturn
    rfl
  by_cases htab : c = 9
  · subst htab
    rfl
  rw [if_neg hquote, if_neg hbackslash, if_neg hnewline, if_neg hreturn, if_neg htab]
  cases hcontrol : isControl c with
  | true => simp [State.step, isClean, hquote, hbackslash, hnewline, hreturn, htab, hcontrol]
  | false => simp [State.step, isClean, hquote, hbackslash, hcontrol]

theorem step_escapes (found : List Token) (front text : List UInt8) :
    (text.flatMap escape).foldlM State.step { found := found, place := .within front }
      = if text.all isClean then some { found := found, place := .within (front ++ text) }
        else none := by
  induction text generalizing front with
  | nil => simp
  | cons c text ih =>
    rw [List.flatMap_cons, List.foldlM_append, step_escape, List.all_cons]
    cases isClean c with
    | false => rfl
    | true =>
      show (text.flatMap escape).foldlM State.step
        { found := found, place := .within (front ++ [c]) } = _
      rw [ih (front ++ [c]), Bool.true_and, List.append_assoc, List.singleton_append]

/-- **A string is written if its characters can be.** -/
theorem writes_string (text : List UInt8) :
    Writes (quote :: text.flatMap escape ++ [quote]) (text.all isClean) [.str text] := by
  intro found
  have hopen : (State.mk found .between).step quote
      = some { found := found, place := .within [] } := rfl
  rw [List.cons_append, List.foldlM_cons, hopen]
  show (text.flatMap escape ++ [quote]).foldlM State.step
    { found := found, place := .within [] } = _
  rw [List.foldlM_append, step_escapes]
  cases text.all isClean with
  | false => rfl
  | true => rfl

/-- Pieces with a separator between them. -/
theorem intercalate_cons_flatMap {α : Type} (sep first : List α) (rest : List (List α)) :
    sep.intercalate (first :: rest) = first ++ rest.flatMap fun piece => sep ++ piece := by
  induction rest generalizing first with
  | nil => simp
  | cons next rest ih =>
    rw [List.intercalate_cons_cons, ih next, List.flatMap_cons]
    simp only [List.append_assoc]

/-- **Several pieces are written if each of them is.** -/
theorem writes_pieces {α : Type} {piece : α → List UInt8} {good : α → Bool} {ts : α → List Token}
    {sep : List UInt8} {between : List Token} (hsep : Writes sep true between)
    (h : ∀ x, Writes (piece x) (good x) (ts x)) (xs : List α) :
    Writes (sep.intercalate (xs.map piece)) (xs.all good) (between.intercalate (xs.map ts)) := by
  have hrest : ∀ xs : List α, Writes ((xs.map piece).flatMap fun y => sep ++ y) (xs.all good)
      ((xs.map ts).flatMap fun y => between ++ y) := by
    intro xs
    induction xs with
    | nil =>
      intro found
      simp
    | cons x xs ih =>
      rw [List.map_cons, List.map_cons, List.flatMap_cons, List.flatMap_cons, List.all_cons]
      exact (hsep.append (h x)).append ih
  cases xs with
  | nil =>
    intro found
    simp
  | cons x xs =>
    rw [List.map_cons, List.map_cons, intercalate_cons_flatMap, intercalate_cons_flatMap,
      List.all_cons]
    exact (h x).append (hrest xs)

theorem itemTokens_eq (items : List Json) :
    itemTokens items = [Token.mark comma].intercalate (items.map tokens) := by
  have hmore : ∀ items : List Json,
      moreItems items = (items.map tokens).flatMap fun y => [Token.mark comma] ++ y := by
    intro items
    induction items with
    | nil => rw [moreItems]; rfl
    | cons item items ih =>
      rw [moreItems, ih, List.map_cons, List.flatMap_cons]
      rfl
  cases items with
  | nil => rw [itemTokens]; rfl
  | cons item items => rw [itemTokens, hmore, List.map_cons, intercalate_cons_flatMap]

theorem memberTokens_eq (members : List (List UInt8 × Json)) :
    memberTokens members = [Token.mark comma].intercalate
      (members.map fun m => Token.str m.1 :: Token.mark colon :: m.2.tokens) := by
  have hmore : ∀ members : List (List UInt8 × Json), moreMembers members =
      (members.map fun m => Token.str m.1 :: Token.mark colon :: m.2.tokens).flatMap
        fun y => [Token.mark comma] ++ y := by
    intro members
    induction members with
    | nil => rw [moreMembers]; rfl
    | cons m members ih =>
      obtain ⟨name, value⟩ := m
      rw [moreMembers, ih, List.map_cons, List.flatMap_cons]
      rfl
  cases members with
  | nil => rw [memberTokens]; rfl
  | cons m members =>
    obtain ⟨name, value⟩ := m
    rw [memberTokens, hmore, List.map_cons, intercalate_cons_flatMap]

end Writes

/-- What is written denotes its value, or nothing. -/
theorem Writes.denotes_iff {text : List UInt8} {ok : Bool} {value other : Json}
    (h : Writes text ok value.tokens) : Denotes text other ↔ ok = true ∧ other = value := by
  unfold Denotes
  rw [h []]
  cases ok with
  | false => simp
  | true =>
    simp only [if_true, List.nil_append, Option.some.injEq, State.mk.injEq, and_true, true_and]
    exact ⟨fun h => tokens_injective h.symm, fun h => by rw [h]⟩

end Json

end Lib
end MiniTSDB
