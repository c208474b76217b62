import MiniTSDB.Sql.Keywords

/-!
# `BETWEEN` in a `WHERE` clause

The loop over the conditions cuts at every `AND` (`whereConditions_andText`), and so at that of a
`BETWEEN`: the condition of the interval ends in front of it, and what is behind it is a condition of
its own. The end of the interval is never read, whatever the order of the conditions and whatever
follows them (`between_reaches_iff`).
-/

namespace MiniTSDB
namespace Sql

open Lib

/-! ## Conditions one after the other -/

/-- `cond AND cond AND cond`. -/
def andText : List Bytes → Bytes
  | [] => []
  | [cond] => cond
  | cond :: conds => cond ++ space :: (ascii "AND " ++ andText conds)

/-- A text that the loop takes for one condition. -/
structure IsCondition (cond : Bytes) : Prop where
  nonempty : cond ≠ []
  tight : Tight cond
  noAnd : ¬ Mentions cond (ascii "AND")

/-- The space in front of a condition begins no `AND`. -/
theorem IsCondition.not_mentions_gap {cond gap : Bytes} (h : IsCondition cond)
    (hgap : gap = [] ∨ gap = [space]) : ¬ Mentions (gap ++ cond) (ascii "AND") := by
  rcases hgap with rfl | rfl
  · exact h.noAnd
  · have hupper : upperChar space = space := rfl
    have hfront : ¬ ascii "AND" <+: space :: toUpper cond := by
      intro hprefix
      exact absurd (List.cons_prefix_cons.mp hprefix).1 (by decide)
    show ¬ ascii "AND" <:+: toUpper (space :: cond)
    rw [toUpper_cons, hupper, List.infix_cons_iff]
    exact not_or.mpr ⟨hfront, h.noAnd⟩

theorem isBlank_of_gap {gap : Bytes} (hgap : gap = [] ∨ gap = [space]) :
    ∀ c ∈ gap, isBlank c = true := by
  rcases hgap with rfl | rfl
  · simp
  · exact fun c hc => isBlank_of_mem_space hc

/-- The turn that reads a condition with another one behind it. -/
theorem whereConditions_next {conv : Conversions} {before gap cond after : Bytes} {fuel : Nat}
    {w : WhereClause} (hgap : gap = [] ∨ gap = [space]) (hcond : IsCondition cond) :
    whereConditions conv (before ++ (gap ++ cond ++ space :: (ascii "AND" ++ after))) (fuel + 1)
        before.length w = (do
      let w ← parseWhereCondition conv w cond
      whereConditions conv (before ++ (gap ++ cond ++ space :: (ascii "AND" ++ after))) fuel
        (before ++ (gap ++ cond ++ space :: ascii "AND")).length w) := by
  have hnext : findKeyword (before ++ (gap ++ cond ++ space :: (ascii "AND" ++ after)))
      (ascii "AND") before.length = some ((gap ++ cond).length + 1 + before.length) := by
    have hmap : toUpper (ascii "AND") = ascii "AND" := rfl
    have hafter : ascii "AND" <+: toUpper (ascii "AND" ++ after) := by
      rw [toUpper_append]
      exact List.prefix_append _ _
    rw [findKeyword_append rfl, hmap, find_behind_name (by decide) (by decide)
      (hcond.not_mentions_gap hgap) hafter]
    rfl
  have hpiece : substrTo (before ++ (gap ++ cond ++ space :: (ascii "AND" ++ after))) before.length
      ((gap ++ cond).length + 1 + before.length) = .ok (gap ++ cond ++ [space]) := by
    have hsplit : gap ++ cond ++ space :: (ascii "AND" ++ after)
        = (gap ++ cond ++ [space]) ++ (ascii "AND" ++ after) := by
      simp only [List.append_assoc, List.cons_append, List.nil_append]
    rw [hsplit]
    apply substrTo_append rfl
    rw [List.length_append, List.length_singleton]
    omega
  have htrim : trim (gap ++ cond ++ [space]) = cond :=
    trim_append gap [space] (isBlank_of_gap hgap) (fun c hc => isBlank_of_mem_space hc) hcond.tight
  have hlt : before.length < (before ++ (gap ++ cond ++ space :: (ascii "AND" ++ after))).length := by
    simp only [List.length_append, List.length_cons]
    omega
  have hpos : (before ++ (gap ++ cond ++ space :: ascii "AND")).length
      = (gap ++ cond).length + 1 + before.length + 3 := by
    rw [List.length_append, List.length_append, List.length_cons]
    change before.length + ((gap ++ cond).length + (3 + 1)) = _
    omega
  rw [whereConditions_succ, if_pos hlt, hnext]
  dsimp only
  rw [hpiece, hpos]
  change (parseWhereCondition conv w (trim (gap ++ cond ++ [space])) >>= _) = _
  rw [htrim]

/-- The turn that reads the last condition. -/
theorem whereConditions_last {conv : Conversions} {before gap cond : Bytes} {fuel : Nat}
    {w : WhereClause} (hgap : gap = [] ∨ gap = [space]) (hcond : IsCondition cond) :
    whereConditions conv (before ++ (gap ++ cond)) (fuel + 2) before.length w
      = parseWhereCondition conv w cond := by
  have hnone : findKeyword (before ++ (gap ++ cond)) (ascii "AND") before.length = none := by
    have hmap : toUpper (ascii "AND") = ascii "AND" := rfl
    rw [findKeyword_append rfl, hmap, find_eq_none_iff.mpr (hcond.not_mentions_gap hgap)]
    rfl
  have htrim : trim (gap ++ cond) = cond := by
    have htrim := trim_append gap [] (isBlank_of_gap hgap) (by simp) hcond.tight
    rwa [List.append_nil] at htrim
  have hlt : before.length < (before ++ (gap ++ cond)).length := by
    have hpos := List.length_pos_iff.mpr hcond.nonempty
    simp only [List.length_append]
    omega
  rw [whereConditions_succ, if_pos hlt, hnone]
  dsimp only
  rw [substr_append rfl]
  change (parseWhereCondition conv w (trim (gap ++ cond)) >>= _) = _
  rw [htrim]
  cases parseWhereCondition conv w cond with
  | error e => rfl
  | ok w => exact whereConditions_length conv _ fuel w

/-- **The conditions are read one after the other**, from `AND` to `AND`. -/
theorem whereConditions_andText {conv : Conversions} {conds : List Bytes} {before gap : Bytes}
    {fuel : Nat} {w : WhereClause} (hgap : gap = [] ∨ gap = [space]) (hne : conds ≠ [])
    (hconds : ∀ cond ∈ conds, IsCondition cond) (hfuel : conds.length < fuel) :
    whereConditions conv (before ++ (gap ++ andText conds)) fuel before.length w
      = conds.foldlM (parseWhereCondition conv) w := by
  induction conds generalizing before gap fuel w with
  | nil => exact absurd rfl hne
  | cons cond conds ih =>
    obtain ⟨fuel, rfl⟩ : ∃ n, fuel = n + 2 := ⟨fuel - 2, by simp at hfuel; omega⟩
    have hcond := hconds cond List.mem_cons_self
    cases conds with
    | nil =>
      show whereConditions conv (before ++ (gap ++ cond)) (fuel + 2) before.length w = _
      rw [whereConditions_last hgap hcond, List.foldlM_cons]
      cases parseWhereCondition conv w cond with
      | error e => rfl
      | ok w => rfl
    | cons next conds =>
      have hsplit : before ++ (gap ++ andText (cond :: next :: conds))
          = before ++ (gap ++ cond ++ space :: (ascii "AND" ++ ([space] ++ andText (next :: conds)))) := by
        simp only [andText, List.append_assoc]
        rfl
      have hsplit' : before ++ (gap ++ cond ++ space ::
          (ascii "AND" ++ ([space] ++ andText (next :: conds))))
          = (before ++ (gap ++ cond ++ space :: ascii "AND")) ++ ([space] ++ andText (next :: conds)) := by
        simp only [List.append_assoc, List.cons_append]
      rw [hsplit, whereConditions_next hgap hcond, List.foldlM_cons]
      refine congrArg (parseWhereCondition conv w cond >>= ·) (funext fun w' => ?_)
      -- the rest begins behind the `AND`, with a space in front of its first condition
      rw [hsplit']
      apply ih (.inr rfl) (by simp) fun c hc => hconds c (List.mem_cons_of_mem _ hc)
      simp only [List.length_cons] at hfuel ⊢
      omega

/-! ## What a condition gives -/

/-- A condition of another field than the tag: what stands in front of it is no `TAG`. -/
theorem parseWhereCondition_other {conv : Conversions} {w : WhereClause} {p rest : Bytes}
    (htight : Tight p) (hne : p ≠ []) (htag : ¬ toUpper p <+: ascii "TAG") (hequals : equals ∉ p)
    (hlike : 76 ∉ toUpper p) :
    parseWhereCondition conv w (p ++ rest) = .ok (withBetween conv w (p ++ rest)) := by
  -- wherever behind `p` the operator is, the field in front of it begins with `p`
  have hfield : ∀ pos len : Nat, p.length ≤ pos → pos + len ≤ (p ++ rest).length →
      ∃ r, fieldAndValue (p ++ rest) pos len = .ok r ∧ r.1 ≠ ascii "TAG" := by
    intro pos len hpos hlen
    have hcut : substrTo (p ++ rest) 0 pos = .ok ((p ++ rest).take pos) := by
      rw [substrTo_ok (Nat.zero_le _), if_pos (Nat.zero_le _)]
      rfl
    rw [fieldAndValue, hcut, substr_ok hlen]
    refine ⟨_, rfl, ?_⟩
    intro heq
    have hfront : p <+: (p ++ rest).take pos := by
      rw [List.take_append, List.take_of_length_le hpos]
      exact List.prefix_append _ _
    have hupper : toUpper p <+: toUpper (trim ((p ++ rest).take pos)) :=
      (trim_keeps_front htight hne hfront).map upperChar
    exact htag (heq ▸ hupper)
  rw [parseWhereCondition]
  cases heq : findChar (p ++ rest) equals 0 with
  | some eq =>
    have hin := (findChar_eq_some heq).2
    obtain ⟨j, hj, rfl⟩ := Option.map_eq_some_iff.mp heq
    have hat := (find_eq_some hj).1
    rw [List.drop_zero] at hat
    have hle := length_le_of_prefix_drop hequals hat
    obtain ⟨r, hr, htag'⟩ := hfield (j + 0) 1 hle hin
    dsimp only
    rw [hr]
    show Except.ok (if r.1 = ascii "TAG" then _ else _) = _
    rw [if_neg htag']
  | none =>
    cases hlikeAt : findKeyword (p ++ rest) (ascii "LIKE") 0 with
    | none => rfl
    | some likeKw =>
      have hin := (findKeyword_eq_some (by decide) hlikeAt).2
      obtain ⟨j, hj, rfl⟩ := Option.map_eq_some_iff.mp hlikeAt
      have hat := (find_eq_some hj).1
      rw [List.drop_zero, toUpper_append] at hat
      have hle := length_le_of_prefix_drop hlike hat
      rw [length_toUpper] at hle
      obtain ⟨r, hr, htag'⟩ := hfield (j + 0) 4 hle hin
      dsimp only
      rw [hr]
      show Except.ok (if r.1 = ascii "TAG" then _ else _) = _
      rw [if_neg htag']

/-- `tag = 'x'`. -/
def tagCondition (x : Bytes) : Bytes := ascii "tag = " ++ quote :: (x ++ [quote])

/-- `ts BETWEEN 's'`: what the loop leaves of the interval. -/
def fromCondition (s : Bytes) : Bytes := ascii "ts BETWEEN " ++ quote :: (s ++ [quote])

theorem withBetween_none {conv : Conversions} {w : WhereClause} {clause : Bytes}
    (h : ¬ Mentions clause (ascii "BETWEEN")) : withBetween conv w clause = w := by
  have hnone : findKeyword clause (ascii "BETWEEN") 0 = none := by
    rw [findKeyword, findFrom, List.drop_zero, Option.map_eq_none_iff]
    exact find_eq_none_iff.mpr h
  rw [withBetween, hnone]

/-- The text in quotes mentions what the literal mentions. -/
theorem mentions_quoted_iff {kw before s : Bytes} (hquote : quote ∉ kw) (hne : kw ≠ [])
    (hbefore : ¬ Mentions before kw) :
    Mentions (before ++ quote :: (s ++ [quote])) kw ↔ Mentions s kw := by
  have hnil : ¬ Mentions [] kw := fun h => hne (List.infix_nil.mp h)
  rw [mentions_append_quote_iff hquote, mentions_append_quote_iff hquote]
  simp only [hbefore, false_or, hnil, or_false]

/-- A literal behind a field is a condition. -/
theorem isCondition_quoted (before : Bytes) {s : Bytes}
    (hfront : (before ++ [quote]).head?.any (! isBlank ·) = true)
    (hbefore : ¬ Mentions before (ascii "AND")) (hs : ¬ Mentions s (ascii "AND")) :
    IsCondition (before ++ quote :: (s ++ [quote])) := by
  have hsplit : before ++ quote :: (s ++ [quote]) = (before ++ [quote]) ++ (s ++ [quote]) := by
    simp only [List.append_assoc, List.cons_append, List.nil_append]
  refine ⟨by simp, ?_, ?_⟩
  · rw [hsplit]
    apply tight_append hfront
    rw [List.getLast?_append]
    rfl
  · exact fun h => hs ((mentions_quoted_iff (by decide) (by decide) hbefore).mp h)

/-- `Trim` leaves what trails a text, up to the blanks at its end. -/
theorem trim_trails {head tail : Bytes} (htight : Tight head) (hne : head ≠ [])
    (htail : Trails tail) : ∃ tail', Trails tail' ∧ trim (head ++ tail) = head ++ tail' := by
  have hhead : head.head?.any (! isBlank ·) = true := by
    cases head with
    | nil => exact absurd rfl hne
    | cons c rest => exact htight.1
  rcases htail with rfl | ⟨kw, hkw, args, rfl⟩
  · refine ⟨[], .inl rfl, ?_⟩
    rw [List.append_nil, trim_eq htight]
  · have hkwLast : ∀ kw ∈ clauseEnds, kw.getLast?.any (! isBlank ·) = true := by decide
    have hlast' : (space :: kw).getLast?.any (! isBlank ·) = true := by
      rw [← List.singleton_append, List.getLast?_append]
      have hkwLast' := hkwLast kw hkw
      cases h : kw.getLast? with
      | none =>
        rw [h] at hkwLast'
        cases hkwLast'
      | some c =>
        rw [h] at hkwLast'
        exact hkwLast'
    have hsplit : head ++ space :: (kw ++ args) = (head ++ space :: kw) ++ args := by
      simp only [List.append_assoc, List.cons_append]
    have hfront : head ++ space :: kw <+: trim (head ++ space :: (kw ++ args)) := by
      rw [hsplit]
      exact trim_keeps_front (tight_append hhead hlast') (by simp) (List.prefix_append _ _)
    obtain ⟨args', hargs⟩ := hfront
    refine ⟨space :: (kw ++ args'), .inr ⟨kw, hkw, args', rfl⟩, ?_⟩
    rw [← hargs]
    simp only [List.append_assoc, List.cons_append]

theorem parseWhereCondition_tag {conv : Conversions} {w : WhereClause} {x : Bytes}
    (hquote : quote ∉ x) (hbetween : ¬ Mentions x (ascii "BETWEEN")) :
    parseWhereCondition conv w (tagCondition x) = .ok { w with tagFilter := x } := by
  have hclause : tagCondition x = literalClause .eq x [] := by
    rw [literalClause, doubleQuotes_eq hquote]
    rfl
  have hnone : ¬ Mentions (tagCondition x) (ascii "BETWEEN") := by
    have hiff : Mentions (ascii "tag = " ++ quote :: (x ++ [quote])) (ascii "BETWEEN") ↔ _ :=
      mentions_quoted_iff (by decide) (by decide) (by decide)
    exact fun h => hbetween (hiff.mp h)
  rw [hclause] at hnone ⊢
  rw [parseWhereCondition_literal follows_nothing, withBetween_none hnone]

theorem parseWhereCondition_ts {conv : Conversions} {w : WhereClause} {s : Bytes} :
    parseWhereCondition conv w (fromCondition s) = .ok (withBetween conv w (fromCondition s)) := by
  have hword : ascii "ts BETWEEN " = ascii "ts" ++ ascii " BETWEEN " := by decide
  rw [fromCondition, hword, List.append_assoc]
  exact parseWhereCondition_other ⟨rfl, rfl⟩ (by decide) (by decide) (by decide) (by decide)

/-- **The interval without its end**: what is read for it is nothing. -/
theorem parseWhereCondition_from {conv : Conversions} {w : WhereClause} {s : Bytes}
    (hquote : quote ∉ s) :
    parseWhereCondition conv w (fromCondition s) = .ok { w with timeRange :=
      { start := conv.parseTimeString s, stop := conv.parseTimeString [] } } := by
  have hother : parseWhereCondition conv w (fromCondition s)
      = .ok (withBetween conv w (fromCondition s)) :=
    parseWhereCondition_ts
  have hbetween : findKeyword (fromCondition s) (ascii "BETWEEN") 0 = some 3 := by
    have hfind : find (ascii "BETWEEN") (toUpper (fromCondition s)) = some 3 := by
      rw [fromCondition, toUpper_append]
      exact find_append_of_find _ (by decide)
    exact congrArg (Option.map (· + 0)) hfind
  have hskip : skipWhitespace (fromCondition s) 10 = 11 := by
    have hword : ascii "ts BETWEEN " = ascii "ts BETWEEN" ++ [space] := by decide
    have hten : (ascii "ts BETWEEN").length = 10 := by decide
    rw [fromCondition, hword, List.append_assoc]
    exact skipWhitespace_next hten rfl
  have hbefore : (ascii "ts BETWEEN ").length = 11 := by decide
  have huntil : skipUntil isQuote (fromCondition s) 11 = 11 := by
    rw [fromCondition, skipUntil_append hbefore]
    rfl
  have hliteral : extractQuoted (fromCondition s) 11 = (s, s.length + 13) := by
    have hread : extractQuoted (quote :: (doubleQuotes s ++ [quote])) 0 = _ :=
      extractQuoted_doubleQuotes s (by decide)
    rw [doubleQuotes_eq hquote] at hread
    rw [fromCondition, extractQuoted_append hbefore, hread]
  have hlen : (fromCondition s).length = s.length + 13 := by
    rw [fromCondition, List.length_append, hbefore, List.length_cons, List.length_append,
      List.length_singleton]
    omega
  have hand : findKeyword (fromCondition s) (ascii "AND") (s.length + 13) = none := by
    rw [findKeyword, findFrom, List.drop_of_length_le (by rw [length_toUpper, hlen])]
    rfl
  rw [hother, withBetween, hbetween]
  dsimp only
  rw [betweenRange, hskip, huntil, if_pos (by omega), hliteral]
  dsimp only
  rw [hand]

/-- `'e'`: what the loop makes of the end. -/
theorem parseWhereCondition_quoted {conv : Conversions} {w : WhereClause} {e : Bytes}
    (hbetween : ¬ Mentions e (ascii "BETWEEN")) :
    parseWhereCondition conv w (quote :: (e ++ [quote])) = .ok w := by
  have hnone : ¬ Mentions (quote :: (e ++ [quote])) (ascii "BETWEEN") := by
    have hiff : Mentions ([] ++ quote :: (e ++ [quote])) (ascii "BETWEEN") ↔ _ :=
      mentions_quoted_iff (by decide) (by decide) (by decide)
    exact fun h => hbetween (hiff.mp h)
  have hother : parseWhereCondition conv w ([quote] ++ (e ++ [quote]))
      = .ok (withBetween conv w ([quote] ++ (e ++ [quote]))) :=
    parseWhereCondition_other ⟨rfl, rfl⟩ (by decide) (by decide) (by decide) (by decide)
  exact hother.trans (congrArg _ (withBetween_none hnone))

/-! ## The statement -/

/-- What a `SELECT` looks for behind its `FROM`. -/
def selectKeywords : List Bytes :=
  [ascii "WHERE", ascii "LATEST", ascii "GROUP BY", ascii "ORDER BY", ascii "LIMIT", ascii "LIKE",
    ascii "BETWEEN", ascii "AND"]

/-- No keyword is in the text. -/
def NoKeyword (s : Bytes) : Prop := ∀ kw ∈ selectKeywords, ¬ Mentions s kw

instance decidableNoKeyword (s : Bytes) : Decidable (NoKeyword s) :=
  inferInstanceAs (Decidable (∀ kw ∈ selectKeywords, ¬ Mentions s kw))

/-- A literal without quotes and keywords. -/
structure IsPlain (s : Bytes) : Prop where
  noQuote : quote ∉ s
  noKeyword : NoKeyword s

inductive ConditionOrder
  | tagFirst
  | timeFirst
  deriving DecidableEq, Repr

/-- `tag = 'x' AND ts BETWEEN 's' AND 'e'`, or the other way round. -/
def ConditionOrder.text (order : ConditionOrder) (x s e : Bytes) : Bytes :=
  match order with
  | .tagFirst => ascii "tag = '" ++ x ++ ascii "' AND ts BETWEEN '" ++ s ++ ascii "' AND '" ++ e
      ++ ascii "'"
  | .timeFirst => ascii "ts BETWEEN '" ++ s ++ ascii "' AND '" ++ e ++ ascii "' AND tag = '" ++ x
      ++ ascii "'"

/-- `SELECT * FROM t WHERE`, the conditions, and what follows them. -/
def selectBetween (order : ConditionOrder) (t x s e tail : Bytes) : Bytes :=
  ascii "SELECT * FROM " ++ t ++ ascii " WHERE " ++ order.text x s e ++ tail

/-- The statement has the tag and the interval that its text says. -/
def BetweenReaches (conv : Conversions) (sql x s e : Bytes) : Prop :=
  Returns (parseSql conv sql) fun r => ∃ stmt : SelectStmt, r = .success (.select stmt) ∧
    stmt.where_.tagFilter = x ∧
    stmt.where_.timeRange = { start := conv.parseTimeString s, stop := conv.parseTimeString e }

theorem mem_selectKeywords_of_clauseEnds {kw : Bytes} (h : kw ∈ clauseEnds) :
    kw ∈ selectKeywords := by
  simp only [clauseEnds, List.mem_cons, List.not_mem_nil, or_false] at h
  rcases h with rfl | rfl | rfl | rfl
  all_goals decide

/-- The conditions as the loop takes them. -/
def ConditionOrder.pieces (order : ConditionOrder) (x s e : Bytes) : List Bytes :=
  match order with
  | .tagFirst => [tagCondition x, fromCondition s, quote :: (e ++ [quote])]
  | .timeFirst => [fromCondition s, quote :: (e ++ [quote]), tagCondition x]

/-- The conditions without the last quote. -/
def ConditionOrder.body (order : ConditionOrder) (x s e : Bytes) : Bytes :=
  match order with
  | .tagFirst => ascii "tag = " ++ quote :: (x ++ quote :: (ascii " AND ts BETWEEN " ++ quote ::
      (s ++ quote :: (ascii " AND " ++ quote :: e))))
  | .timeFirst => ascii "ts BETWEEN " ++ quote :: (s ++ quote :: (ascii " AND " ++ quote ::
      (e ++ quote :: (ascii " AND tag = " ++ quote :: x))))

theorem selectBetween_eq (order : ConditionOrder) (t x s e tail : Bytes) :
    selectBetween order t x s e tail
      = selectOf (ascii "*") t (order.body x s e ++ quote :: tail) := by
  cases order with
  | tagFirst =>
    simp only [selectBetween, ConditionOrder.text, ConditionOrder.body, List.append_assoc,
      List.cons_append]
    rfl
  | timeFirst =>
    simp only [selectBetween, ConditionOrder.text, ConditionOrder.body, List.append_assoc,
      List.cons_append]
    rfl

theorem andText_pieces (order : ConditionOrder) (x s e : Bytes) :
    andText (order.pieces x s e) = order.body x s e ++ [quote] := by
  cases order with
  | tagFirst =>
    simp only [ConditionOrder.pieces, ConditionOrder.body, andText, tagCondition, fromCondition,
      List.append_assoc, List.cons_append]
    rfl
  | timeFirst =>
    simp only [ConditionOrder.pieces, ConditionOrder.body, andText, tagCondition, fromCondition,
      List.append_assoc, List.cons_append]
    rfl

/-- The blanks at the ends are cut, and nothing of the conditions with them. -/
theorem trim_selectBetween (order : ConditionOrder) (t x s e : Bytes) {tail : Bytes}
    (htail : Trails tail) :
    ∃ tail', Trails tail' ∧ trim (selectBetween order t x s e tail)
      = selectOf (ascii "*") t (order.body x s e ++ quote :: tail') := by
  have hhead : ∀ tail, selectBetween order t x s e tail
      = selectOf (ascii "*") t (order.body x s e ++ [quote]) ++ tail := by
    intro tail
    simp only [selectBetween_eq, selectOf, behindFrom, List.append_assoc, List.cons_append,
      List.nil_append]
  have htight : Tight (selectOf (ascii "*") t (order.body x s e ++ [quote])) := by
    apply tight_append rfl
    simp only [behindFrom, List.getLast?_append, List.getLast?_cons]
    rfl
  obtain ⟨tail', htail', htrim⟩ := trim_trails htight (List.cons_ne_nil _ _) htail
  refine ⟨tail', htail', ?_⟩
  rw [hhead, htrim, ← hhead, selectBetween_eq]

section
variable {x s e : Bytes} (hx : IsPlain x) (hs : IsPlain s) (he : IsPlain e)
include hx hs he

/-- Nothing that ends the clause is in the conditions. -/
theorem not_mentions_body (order : ConditionOrder) {t kw : Bytes} (ht : IsTableName t)
    (hname : ¬ Mentions t kw) (hkw : kw ∈ clauseEnds) :
    ¬ Mentions (behindFrom t (order.body x s e)) kw := by
  obtain ⟨-, hquote, -⟩ := clauseEnds_spec hkw
  have hkw' := mem_selectKeywords_of_clauseEnds hkw
  have hmiddle : ∀ kw ∈ clauseEnds, ¬ Mentions (ascii " AND ts BETWEEN ") kw ∧
      ¬ Mentions (ascii " AND ") kw ∧ ¬ Mentions (ascii " AND tag = ") kw := by decide
  obtain ⟨hbetween, hand, htag⟩ := hmiddle kw hkw
  cases order with
  | tagFirst =>
    have hhead : ¬ Mentions (t ++ space :: ascii "WHERE tag = ") kw := fun h =>
      hname ((mentions_behind_iff ht hkw (by decide) (by decide)).mp h)
    have hsplit : behindFrom t (ConditionOrder.body .tagFirst x s e)
        = (t ++ space :: ascii "WHERE tag = ") ++ quote :: (x ++ quote ::
          (ascii " AND ts BETWEEN " ++ quote :: (s ++ quote :: (ascii " AND " ++ quote :: e)))) := by
      simp only [behindFrom, ConditionOrder.body, List.append_assoc, List.cons_append]
      rfl
    simp only [hsplit, mentions_append_quote_iff hquote, not_or]
    exact ⟨hhead, hx.noKeyword kw hkw', hbetween, hs.noKeyword kw hkw', hand, he.noKeyword kw hkw'⟩
  | timeFirst =>
    have hhead : ¬ Mentions (t ++ space :: ascii "WHERE ts BETWEEN ") kw := fun h =>
      hname ((mentions_behind_iff ht hkw (by decide) (by decide)).mp h)
    have hsplit : behindFrom t (ConditionOrder.body .timeFirst x s e)
        = (t ++ space :: ascii "WHERE ts BETWEEN ") ++ quote :: (s ++ quote ::
          (ascii " AND " ++ quote :: (e ++ quote :: (ascii " AND tag = " ++ quote :: x)))) := by
      simp only [behindFrom, ConditionOrder.body, List.append_assoc, List.cons_append]
      rfl
    simp only [hsplit, mentions_append_quote_iff hquote, not_or]
    exact ⟨hhead, hs.noKeyword kw hkw', hand, he.noKeyword kw hkw', htag, hx.noKeyword kw hkw'⟩

theorem isCondition_pieces (order : ConditionOrder) :
    ∀ cond ∈ order.pieces x s e, IsCondition cond := by
  have hand : ascii "AND" ∈ selectKeywords := by decide
  have htag : IsCondition (tagCondition x) :=
    isCondition_quoted (ascii "tag = ") rfl (by decide) (hx.noKeyword _ hand)
  have hfrom : IsCondition (fromCondition s) :=
    isCondition_quoted (ascii "ts BETWEEN ") rfl (by decide) (hs.noKeyword _ hand)
  have hquoted : IsCondition (quote :: (e ++ [quote])) :=
    isCondition_quoted [] rfl (by decide) (he.noKeyword _ hand)
  cases order with
  | tagFirst => simpa [ConditionOrder.pieces] using ⟨htag, hfrom, hquoted⟩
  | timeFirst => simpa [ConditionOrder.pieces] using ⟨hfrom, hquoted, htag⟩

/-- What the conditions give: the tag, and an interval whose end is read from nothing. -/
theorem foldlM_pieces (conv : Conversions) (order : ConditionOrder) :
    (order.pieces x s e).foldlM (parseWhereCondition conv) {} = .ok
      { tagFilter := x, timeRange :=
        { start := conv.parseTimeString s, stop := conv.parseTimeString [] } } := by
  have hbetween : ascii "BETWEEN" ∈ selectKeywords := by decide
  have htag : ∀ w, parseWhereCondition conv w (tagCondition x) = .ok { w with tagFilter := x } :=
    fun w => parseWhereCondition_tag hx.noQuote (hx.noKeyword _ hbetween)
  have hquoted : ∀ w, parseWhereCondition conv w (quote :: (e ++ [quote])) = .ok w :=
    fun w => parseWhereCondition_quoted (he.noKeyword _ hbetween)
  cases order with
  | tagFirst =>
    simp only [ConditionOrder.pieces, List.foldlM_cons, List.foldlM_nil, htag, hquoted,
      parseWhereCondition_from hs.noQuote]
    rfl
  | timeFirst =>
    simp only [ConditionOrder.pieces, List.foldlM_cons, List.foldlM_nil, htag, hquoted,
      parseWhereCondition_from hs.noQuote]
    rfl

/-- The loop over the conditions takes the one behind the second `AND` for a condition. -/
theorem whereConditions_body (conv : Conversions) (order : ConditionOrder) {fuel : Nat}
    (hfuel : 3 < fuel) :
    whereConditions conv (order.body x s e ++ [quote]) fuel 0 {} = .ok
      { tagFilter := x, timeRange :=
        { start := conv.parseTimeString s, stop := conv.parseTimeString [] } } := by
  have hthree : (order.pieces x s e).length = 3 := by
    cases order with
    | tagFirst => rfl
    | timeFirst => rfl
  have hne : order.pieces x s e ≠ [] := by
    intro hnil
    rw [hnil] at hthree
    cases hthree
  have hloop : whereConditions conv ([] ++ ([] ++ andText (order.pieces x s e))) fuel
      ([] : Bytes).length {} = _ :=
    whereConditions_andText (.inl rfl) hne (isCondition_pieces hx hs he order) (by omega)
  rw [foldlM_pieces hx hs he, andText_pieces] at hloop
  exact hloop

/-- **What the parser makes of the text**: the end of the interval is what it reads from nothing. -/
theorem parse_selectBetween (conv : Conversions) (order : ConditionOrder) {t tail : Bytes}
    (ht : IsTableName t) (hname : NoKeyword t) (htail : Trails tail) :
    Returns (parseSql conv (selectBetween order t x s e tail)) fun r => ∃ stmt : SelectStmt,
      r = .success (.select stmt) ∧ stmt.where_ = { tagFilter := x, timeRange :=
        { start := conv.parseTimeString s, stop := conv.parseTimeString [] } } := by
  obtain ⟨tail', htail', hsql⟩ := trim_selectBetween order t x s e htail
  have hwhere : find (ascii "WHERE") (toUpper (behindFrom t (order.body x s e ++ quote :: tail')))
      = some (t.length + 1) := by
    apply find_behind_name (by decide) (by decide) (hname _ (by decide))
    rw [toUpper_append]
    exact List.IsPrefix.trans (by decide) (List.prefix_append _ _)
  have hlong : 14 ≤ (selectBetween order t x s e tail).length := by
    simp only [selectBetween, List.append_assoc, List.length_append]
    exact Nat.le_add_right 14 _
  have hfront : (order.body x s e).head?.any (fun c => !(isBlank c || c = comma)) = true := by
    cases order with
    | tagFirst => rfl
    | timeFirst => rfl
  have hclause : ∀ kw ∈ clauseEnds, ¬ Mentions (behindFrom t (order.body x s e)) kw :=
    fun kw hkw => not_mentions_body hx hs he order ht
      (hname kw (mem_selectKeywords_of_clauseEnds hkw)) hkw
  rw [parseSql, parse_selectOf _ _ hsql isColumns_star ht hwhere]
  refine Returns.bind (selectColumns_returns ?_) fun columns _ => ?_
  · -- the text has room for a turn for each of its columns
    exact Nat.lt_succ_of_le (Nat.le_trans (by decide) hlong)
  · rw [whereClause_closed hfront hclause htail', whereConditions_body hx hs he conv order (by omega)]
    exact Returns.pure ⟨_, rfl, rfl⟩

end

/-- **The interval reaches the statement exactly if its end is read as nothing is.** -/
theorem between_reaches_iff (conv : Conversions) (order : ConditionOrder) {t x s e tail : Bytes}
    (ht : IsTableName t) (hname : NoKeyword t) (hx : IsPlain x) (hs : IsPlain s) (he : IsPlain e)
    (htail : Trails tail) :
    BetweenReaches conv (selectBetween order t x s e tail) x s e ↔
      conv.parseTimeString e = conv.parseTimeString [] := by
  obtain ⟨r, hparse, stmt, hr, hwhere⟩ := parse_selectBetween hx hs he conv order ht hname htail
  constructor
  · rintro ⟨r', hparse', stmt', hr', -, hrange⟩
    rw [hparse] at hparse'
    cases hparse'
    rw [hr] at hr'
    cases hr'
    rw [hwhere] at hrange
    exact (congrArg TimeRange.stop hrange).symm
  · intro hend
    refine ⟨r, hparse, stmt, hr, ?_, ?_⟩
    · rw [hwhere]
    · rw [hwhere, hend]

/-- Two dates as `ParseTimeString` reads them, in UTC: nineteen centuries and a month too early. -/
def twoDates : Conversions where
  stod := fun _ => none
  parseTimeString := fun s =>
    if s = ascii "2026-05-23" then -58181328000000
    else if s = ascii "2026-05-24" then -58181241600000
    else 0

/-- An interval that ends with nothing, and a `LIMIT` behind it. -/
theorem between_reaches_noEnd : BetweenReaches twoDates
    (selectBetween .timeFirst (ascii "boiler_temp") (ascii "BOILER-001") (ascii "2026-05-23") []
      (ascii " ORDER BY ts LIMIT 10")) (ascii "BOILER-001") (ascii "2026-05-23") [] :=
  (between_reaches_iff twoDates .timeFirst ⟨by decide, List.all_eq_true.mp rfl⟩ (by decide)
    ⟨by decide, by decide⟩ ⟨by decide, by decide⟩ ⟨by decide, by decide⟩
    (.inr ⟨ascii "ORDER BY", by decide, ascii " ts LIMIT 10", rfl⟩)).mpr rfl

/-- **A day's interval** ends with the epoch. -/
theorem between_loses_end : ¬ BetweenReaches twoDates
    (selectBetween .tagFirst (ascii "boiler_temp") (ascii "BOILER-001") (ascii "2026-05-23")
      (ascii "2026-05-24") []) (ascii "BOILER-001") (ascii "2026-05-23") (ascii "2026-05-24") := by
  rintro ⟨r, hparse, stmt, hr, -, hrange⟩
  have hx : IsPlain (ascii "BOILER-001") := ⟨by decide, by decide⟩
  have hs : IsPlain (ascii "2026-05-23") := ⟨by decide, by decide⟩
  have he : IsPlain (ascii "2026-05-24") := ⟨by decide, by decide⟩
  have ht : IsTableName (ascii "boiler_temp") := ⟨by decide, List.all_eq_true.mp rfl⟩
  obtain ⟨r', hparse', stmt', hr', hwhere⟩ :=
    parse_selectBetween hx hs he twoDates .tagFirst ht (by decide) (.inl rfl)
  rw [hparse] at hparse'
  cases hparse'
  rw [hr] at hr'
  cases hr'
  rw [hwhere] at hrange
  exact absurd (congrArg TimeRange.stop hrange) (by decide)

end Sql
end MiniTSDB
