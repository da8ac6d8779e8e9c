import ReaderGen.Proofs.Description
import ReaderGen.Proofs.Draft
import ReaderGen.Proofs.Transplant

/-!
# Reading back a written description

A draft is written as a description and read again. The texts of its subscripts and bounds are then
expressions inside a longer text, and the result is the format of the draft with each of them in canonical
form, as `simplify` gives it for the text alone.

There is one exception. The bound of a loop stands directly before the body. If its last word is `async` or
`try`, the curly bracket makes it a block of the bound, and the loop is left without a body: such a
description is refused, although the bound is an expression by itself and may be a subscript.

* `Draft.statements_reads`: the tokens of a draft are read as its statements, wherever they stand.
* `Draft.leavesBlock_of_statements`: if they are read at all, no bound takes the body.
* `parse_text_iff`: a written draft is read back just if no bound ends in one of the two words.
-/

namespace ReaderGen

namespace Draft

open Reading Description

/-! ## Texts that stand for an expression -/

/-- The tokens of the text are read as an expression with this canonical form, wherever they stand. -/
structure Denotes (g : Grammar) (text canonical : String) : Prop where
  contained : Token.SelfContained (tokensOf text)
  reads : ∃ e : Expr, e.canonicalize = .ok canonical ∧
    ReadsAs g.expression Halts e (tokensOf text)

theorem parse_of_simplify {text canonical : String} (h : simplify text = .ok canonical) :
    ∃ e, Expr.parse text = .ok e ∧ e.canonicalize = .ok canonical := by
  obtain ⟨p, hp, h⟩ := ok_of_bind h
  unfold polynomialOf at hp
  split at hp
  · rename_i e he
    refine ⟨e, he, ?_⟩
    rw [Expr.canonicalize, hp]
    exact h
  · cases hp
  · cases hp

/-- A text is scanned by itself if it can be simplified. -/
theorem scannable_of_simplify {text canonical : String} (h : simplify text = .ok canonical)
    (hc : Scanner.commentFree 0 text.toList = true) (hm : text.toList.head? ≠ some '\ufeff') :
    Scannable text := by
  obtain ⟨e, he, -⟩ := parse_of_simplify h
  obtain ⟨lexemes, hscan, -⟩ := Expr.parse_eq_ok_iff.1 he
  exact ⟨⟨lexemes, hscan⟩, hc, hm⟩

/-- What a text stands for alone, it stands for anywhere in a longer list of tokens. -/
theorem denotes_of_simplify {text canonical : String} (h : simplify text = .ok canonical)
    (hs : Scannable text) {m : Nat} (hm : Grammar.depthFor (tokensOf text) ≤ m) :
    Denotes (.ofDepth m) text canonical := by
  obtain ⟨e, he, hcanonical⟩ := parse_of_simplify h
  obtain ⟨lexemes, hscan, hread⟩ := Expr.parse_eq_ok_iff.1 he
  have htokens : tokensOf text = lexemes.map (·.token) := by rw [tokensOf, hscan]
  rw [← htokens] at hread
  have hbalanced : Token.openAfter [] (tokensOf text) = some [] := by
    obtain ⟨lexemes', hfrom, htokens'⟩ := hs.scanFrom
    rw [htokens']
    exact Scanner.openAfter_of_scanFrom hfrom hs.comments
  obtain ⟨used, htaken, hreads⟩ := (Grammar.ofDepth_carries hm).expression true hread
    (arithmetic_of_canonicalize hcanonical) rfl hbalanced
  obtain rfl : tokensOf text = used := by simpa using htaken.rest
  exact ⟨htaken.contained, e, hcanonical, hreads⟩

variable {g : Grammar} {canonical : String → String}

/-- The expression is read with its place. -/
theorem located_reads {text : String} (h : Denotes g text (canonical text)) (braces : Bool)
    (rest : List Token) (stray : Option Complaint) (hrest : Halts rest)
    (hadmits : Admits braces (tokensOf text) rest) :
    ∃ l : Located, located g braces ⟨tokensOf text ++ rest, stray⟩ = .ok (l, ⟨rest, stray⟩) ∧
      ∀ lexemes, l.canonical lexemes = .ok (canonical text) := by
  obtain ⟨e, he, hreads⟩ := h.reads
  refine ⟨⟨e, (tokensOf text ++ rest).length, rest.length⟩, ?_, fun lexemes => ?_⟩
  · rw [located, bind_get]
    exact bind_of_ok (hreads braces rest stray hrest hadmits)
  · rw [Located.canonical, he]
    rfl

/-! ## Items -/

theorem index_reads {text : String} (h : Denotes g text (canonical text)) (rest : List Token)
    (stray : Option Complaint) :
    ∃ l : Located, index g ⟨Token.bracketed .square (tokensOf text) ++ rest, stray⟩ =
        .ok (some l, ⟨rest, stray⟩) ∧
      ∀ lexemes, l.canonical lexemes = .ok (canonical text) := by
  obtain ⟨l, hl, hcanonical⟩ :=
    located_reads h true (.closing .square :: rest) stray trivial trivial
  refine ⟨l, ?_, hcanonical⟩
  have hsplit : Token.bracketed .square (tokensOf text) ++ rest =
      .opening .square :: (tokensOf text ++ .closing .square :: rest) := by simp [Token.bracketed]
  rw [hsplit, index, bind_get, if_neg (by simp [Cursor.opens]),
    bind_of_ok (enter_opening .square _ stray), bind_of_ok hl]
  exact bind_of_ok (leave_closing .square rest stray)

theorem manyFrom_index_reads {indices : List String}
    (h : ∀ text ∈ indices, Denotes g text (canonical text)) {rest : List Token}
    {stray : Option Complaint} (hrest : Cursor.opens .square ⟨rest, stray⟩ = false) {n : Nat}
    (hn : (indicesTokens indices).length < n) :
    ∃ ls : List Located,
      manyFrom (index g) n ⟨indicesTokens indices ++ rest, stray⟩ = .ok (ls, ⟨rest, stray⟩) ∧
      ∀ lexemes, ls.mapM (·.canonical lexemes) = .ok (indices.map canonical) := by
  induction indices generalizing n with
  | nil =>
    obtain ⟨n, rfl⟩ : ∃ k, n = k + 1 := ⟨n - 1, by omega⟩
    refine ⟨[], ?_, fun _ => rfl⟩
    have hnone : index g ⟨rest, stray⟩ = .ok (none, ⟨rest, stray⟩) := by
      rw [index, bind_get, hrest]
      rfl
    rw [indicesTokens, List.nil_append, manyFrom_succ, hnone]
  | cons text indices ih =>
    obtain ⟨n, rfl⟩ : ∃ k, n = k + 1 := ⟨n - 1, by omega⟩
    obtain ⟨htext, hindices⟩ := List.forall_mem_cons.1 h
    rw [indicesTokens, Token.bracketed, List.length_append, List.length_append] at hn
    obtain ⟨l, hl, hfirst⟩ := index_reads htext (indicesTokens indices ++ rest) stray
    obtain ⟨ls, hls, hothers⟩ := ih hindices (n := n) (by simp at hn; omega)
    refine ⟨l :: ls, ?_, fun lexemes => ?_⟩
    · rw [indicesTokens, List.append_assoc, manyFrom_succ, hl]
      exact bind_of_ok hls
    · rw [List.mapM_cons, hfirst, hothers]
      rfl

theorem item_reads {i : Draft.Item} (h : ∀ text ∈ i.indices, Denotes g text (canonical text))
    (rest : List Token) (stray : Option Complaint)
    (hrest : Cursor.opens .square ⟨rest, stray⟩ = false) :
    ∃ i' : Description.Item, item g ⟨i.tokens ++ rest, stray⟩ = .ok (i', ⟨rest, stray⟩) ∧
      ∀ lexemes, i'.toFormat lexemes = .ok (.item i.name (i.indices.map canonical)) := by
  obtain ⟨ls, hls, hcanonical⟩ := manyFrom_index_reads h hrest
    (n := (indicesTokens i.indices ++ rest).length + 1) (by rw [List.length_append]; omega)
  refine ⟨⟨i.name, ls⟩, ?_, fun lexemes => ?_⟩
  · exact bind_of_ok (r := many (index g)) (f := fun ls => return Description.Item.mk i.name ls) hls
  · rw [Item.toFormat, hcanonical]
    rfl

/-- Items up to the end of their line. -/
theorem joinedFrom_item_reads {first : Draft.Item} {more : List Draft.Item}
    (h : ∀ i ∈ first :: more, ∀ text ∈ i.indices, Denotes g text (canonical text))
    (ts : List Token) (stray : Option Complaint) {n : Nat} (hn : more.length < n) :
    ∃ parts, joinedFrom (fun _ => false) (item g) "," n
        ⟨itemsTokens first more ++ .punct ';' false :: ts, stray⟩ =
          .ok (parts, ⟨.punct ';' false :: ts, stray⟩) ∧
      ∀ lexemes, (parts.map (·.1)).mapM (·.toFormat lexemes) =
        .ok ((first :: more).map fun i => .item i.name (i.indices.map canonical)) := by
  induction more generalizing first n with
  | nil =>
    obtain ⟨n, rfl⟩ : ∃ k, n = k + 1 := ⟨n - 1, by omega⟩
    obtain ⟨i, hi, hformat⟩ := item_reads (h first (.head _)) (.punct ';' false :: ts) stray rfl
    refine ⟨[(i, [])], ?_, fun lexemes => ?_⟩
    · rw [itemsTokens, joinedFrom, bind_get, if_neg Bool.false_ne_true, bind_of_ok hi]
      rfl
    · simp only [List.map_cons, List.map_nil, List.mapM_cons, hformat]
      rfl
  | cons next more ih =>
    obtain ⟨n, rfl⟩ : ∃ k, n = k + 1 := ⟨n - 1, by omega⟩
    obtain ⟨hfirst, hothers⟩ := List.forall_mem_cons.1 h
    obtain ⟨parts, hparts, hformats⟩ := ih hothers (n := n) (by simp at hn; omega)
    obtain ⟨i, hi, hformat⟩ := item_reads hfirst
      (.punct ',' false :: (itemsTokens next more ++ .punct ';' false :: ts)) stray rfl
    have hcomma : ∀ us, Cursor.startsWith "," ⟨.punct ',' false :: us, stray⟩ = true := fun _ => rfl
    refine ⟨(i, Token.symbol ",") :: parts, ?_, fun lexemes => ?_⟩
    · rw [itemsTokens, List.append_assoc, List.cons_append, joinedFrom, bind_get,
        if_neg Bool.false_ne_true, bind_of_ok hi, bind_get,
        if_neg (by rw [hcomma]; decide), bind_of_ok (show symbol "," _ = .ok (Token.symbol ",", _) from rfl)]
      exact bind_of_ok hparts
    · rw [List.map_cons, List.mapM_cons, hformat, hformats]
      rfl

theorem length_le_itemsTokens (first : Draft.Item) (more : List Draft.Item) :
    more.length ≤ (itemsTokens first more).length := by
  induction more generalizing first with
  | nil => exact Nat.zero_le _
  | cons next more ih =>
    have := ih next
    rw [itemsTokens, List.length_append, List.length_cons, List.length_cons]
    omega

theorem items_reads {first : Draft.Item} {more : List Draft.Item}
    (h : ∀ i ∈ first :: more, ∀ text ∈ i.indices, Denotes g text (canonical text))
    (ts : List Token) (stray : Option Complaint) :
    ∃ is : List Description.Item,
      items g ⟨itemsTokens first more ++ .punct ';' false :: ts, stray⟩ =
        .ok (is, ⟨.punct ';' false :: ts, stray⟩) ∧
      ∀ lexemes, is.mapM (·.toFormat lexemes) =
        .ok ((first :: more).map fun i => .item i.name (i.indices.map canonical)) := by
  have hlength : more.length < (itemsTokens first more ++ .punct ';' false :: ts).length + 1 := by
    have := length_le_itemsTokens first more
    rw [List.length_append]
    omega
  obtain ⟨parts, hparts, hformats⟩ := joinedFrom_item_reads h ts stray hlength
  refine ⟨parts.map (·.1), ?_, hformats⟩
  rw [items]
  exact bind_of_ok (r := joined (fun _ => false) (item g) ",") hparts

/-! ## Statements -/

/-- After `read` stand items and the end of their line. -/
theorem statements_read (g : Grammar) (n : Nat) (ts : List Token) (stray : Option Complaint) :
    statements g (n + 1) ⟨.ident "read" :: ts, stray⟩ = (do
      let items ← items g
      let _ ← symbol ";"
      let rest ← statements g n
      return Statement.read items :: rest) ⟨ts, stray⟩ := rfl

/-- After `for`, the counter and `upto` stand the bound and the body. -/
theorem statements_loop (g : Grammar) (n : Nat) (counter : String) (ts : List Token)
    (stray : Option Complaint) :
    statements g (n + 1) ⟨.ident "for" :: .ident counter :: .ident "upto" :: ts, stray⟩ = (do
      let bound ← located g false
      enter .curly
      let body ← statements g n
      leave
      let rest ← statements g n
      return Statement.loop counter bound body :: rest) ⟨ts, stray⟩ := rfl

/-- The tokens of a draft are read as its statements up to the end of the enclosing block, if no bound
takes the body of its loop. -/
theorem statements_reads {d : Draft} (htexts : ∀ text ∈ d.texts, Denotes g text (canonical text))
    (hbounds : ∀ bound ∈ d.bounds, leavesBlock (tokensOf bound) = true) (rest : List Token)
    (stray : Option Complaint) (hrest : Cursor.atEnd ⟨rest, stray⟩ = true) {n : Nat}
    (hn : d.tokens.length < n) :
    ∃ ss, statements g n ⟨d.tokens ++ rest, stray⟩ = .ok (ss, ⟨rest, stray⟩) ∧
      ∀ lexemes, toFormats lexemes ss = .ok (d.formats canonical) := by
  induction d generalizing rest n with
  | done =>
    obtain ⟨n, rfl⟩ : ∃ k, n = k + 1 := ⟨n - 1, by omega⟩
    refine ⟨[], ?_, fun _ => rfl⟩
    rw [tokens, List.nil_append, statements, bind_get, if_pos hrest]
    rfl
  | read first more others ih =>
    obtain ⟨n, rfl⟩ : ∃ k, n = k + 1 := ⟨n - 1, by omega⟩
    obtain ⟨hindices, htexts⟩ := List.forall_mem_append.1 htexts
    simp only [tokens, List.length_cons, List.length_append] at hn
    obtain ⟨is, his, hitems⟩ := items_reads
      (fun i hi text ht => hindices text (List.mem_flatMap.2 ⟨i, hi, ht⟩)) (others.tokens ++ rest)
      stray
    obtain ⟨ss, hss, hothers⟩ := ih htexts hbounds rest hrest (n := n) (by omega)
    refine ⟨.read is :: ss, ?_, fun lexemes => ?_⟩
    · rw [tokens, List.cons_append, List.append_assoc, List.cons_append, statements_read,
        bind_of_ok his, bind_of_ok (show symbol ";" _ = .ok (Token.symbol ";", _) from rfl)]
      exact bind_of_ok hss
    · rw [toFormats, Statement.toFormat, hitems, hothers]
      rfl
  | loop counter bound body others ihb iho =>
    obtain ⟨n, rfl⟩ : ∃ k, n = k + 1 := ⟨n - 1, by omega⟩
    obtain ⟨hbound, htexts⟩ := List.forall_mem_cons.1 htexts
    obtain ⟨htbody, htothers⟩ := List.forall_mem_append.1 htexts
    obtain ⟨hblock, hbounds⟩ := List.forall_mem_cons.1 hbounds
    obtain ⟨hbbody, hbothers⟩ := List.forall_mem_append.1 hbounds
    simp only [tokens, List.length_cons, List.length_append] at hn
    obtain ⟨l, hl, hsize⟩ := located_reads hbound false
      (.opening .curly :: (body.tokens ++ .closing .curly :: (others.tokens ++ rest))) stray trivial
      ⟨rfl, hblock⟩
    obtain ⟨ss, hss, hbody⟩ := ihb htbody hbbody
      (.closing .curly :: (others.tokens ++ rest)) rfl (n := n) (by omega)
    obtain ⟨ss', hss', hothers⟩ := iho htothers hbothers rest hrest (n := n) (by omega)
    refine ⟨.loop counter l ss :: ss', ?_, fun lexemes => ?_⟩
    · simp only [tokens, List.cons_append, List.append_assoc]
      rw [statements_loop, bind_of_ok hl, bind_of_ok (enter_opening .curly _ stray),
        bind_of_ok hss, bind_of_ok (leave_closing .curly _ stray)]
      exact bind_of_ok hss'
    · rw [toFormats, Statement.toFormat, hsize, hbody, hothers]
      rfl

/-! ## Bounds that take the body -/

theorem openAfter_indicesTokens {indices : List String}
    (h : ∀ text ∈ indices, Token.openAfter [] (tokensOf text) = some []) :
    Token.openAfter [] (indicesTokens indices) = some [] := by
  induction indices with
  | nil => rfl
  | cons text indices ih =>
    obtain ⟨htext, hindices⟩ := List.forall_mem_cons.1 h
    rw [indicesTokens, Token.openAfter_balanced (Token.openAfter_bracketed htext), ih hindices]

theorem openAfter_itemsTokens {first : Draft.Item} {more : List Draft.Item}
    (h : ∀ i ∈ first :: more, ∀ text ∈ i.indices, Token.openAfter [] (tokensOf text) = some []) :
    Token.openAfter [] (itemsTokens first more) = some [] := by
  induction more generalizing first with
  | nil => exact openAfter_indicesTokens (h first (.head _))
  | cons next more ih =>
    obtain ⟨hfirst, hothers⟩ := List.forall_mem_cons.1 h
    have hitem : Token.openAfter [] first.tokens = some [] := openAfter_indicesTokens hfirst
    rw [itemsTokens, Token.openAfter_balanced hitem]
    exact ih hothers

/-- The brackets of a draft match. -/
theorem openAfter_tokens {d : Draft}
    (h : ∀ text ∈ d.texts, Token.openAfter [] (tokensOf text) = some []) :
    Token.openAfter [] d.tokens = some [] := by
  induction d with
  | done => rfl
  | read first more others ih =>
    obtain ⟨hindices, h⟩ := List.forall_mem_append.1 h
    have hitems : Token.openAfter [] (itemsTokens first more) = some [] :=
      openAfter_itemsTokens fun i hi text ht => hindices text (List.mem_flatMap.2 ⟨i, hi, ht⟩)
    rw [tokens, Token.openAfter_of_not_bracket rfl, Token.openAfter_balanced hitems]
    exact ih h
  | loop counter bound body others ihb iho =>
    obtain ⟨hbound, h⟩ := List.forall_mem_cons.1 h
    obtain ⟨hbody, hothers⟩ := List.forall_mem_append.1 h
    have hblock : tokensOf bound ++
        .opening .curly :: (body.tokens ++ .closing .curly :: others.tokens) =
          tokensOf bound ++ (Token.bracketed .curly body.tokens ++ others.tokens) := by
      simp [Token.bracketed]
    rw [tokens, hblock]
    show Token.openAfter [] (tokensOf bound ++ _) = some []
    rw [Token.openAfter_balanced hbound,
      Token.openAfter_balanced (Token.openAfter_bracketed (ihb hbody)), iho hothers]

/-- The bound of a loop whose body is read does not take it: the bound ends where the first block begins
that stands in none of its brackets. -/
theorem leavesBlock_of_located (hg : g.Carries g) {text : String}
    (h : Token.SelfContained (tokensOf text)) {ts : List Token} {stray : Option Complaint}
    {l : Located} {c c' : Cursor}
    (hread : located g false ⟨tokensOf text ++ .opening .curly :: ts, stray⟩ = .ok (l, c))
    (henter : enter .curly c = .ok ((), c')) (hl : l.expr.Arithmetic) (hstray : c.stray = none)
    {stack : List Bracket} (hstack : Token.openAfter stack (.opening .curly :: ts) = some []) :
    leavesBlock (tokensOf text) = true ∧ c = ⟨.opening .curly :: ts, none⟩ := by
  rw [located, bind_get] at hread
  obtain ⟨e, c₁, he, hread⟩ := bind_eq_ok_iff.1 hread
  cases hread
  obtain ⟨hopen, -⟩ := Grammar.enter_of_ok henter
  obtain ⟨us, hus⟩ := Grammar.rest_of_opens hopen
  obtain ⟨used, htaken, -⟩ := hg.expression false he hl hstray
    ((Token.openAfter_balanced h.balanced stack _).trans hstack)
  have hrest : tokensOf text ++ .opening .curly :: ts = used ++ .opening .curly :: us := by
    rw [← hus]
    exact htaken.rest
  obtain rfl := h.eq_of_block htaken.contained hrest
  refine ⟨htaken.block hopen, ?_⟩
  obtain ⟨rest, stray'⟩ := c
  obtain rfl : rest = .opening .curly :: us := hus
  obtain rfl : stray' = none := hstray
  rw [List.append_cancel_left hrest]

/-- If the tokens of a draft are read as statements, with nothing stray in its blocks and all expressions
of canonical form, then no bound takes the body of its loop. -/
theorem leavesBlock_of_statements (hg : g.Carries g) {d : Draft}
    (htexts : ∀ text ∈ d.texts, Denotes g text (canonical text)) (rest : List Token)
    {stack : List Bracket} {n : Nat} {lexemes : List Lexeme} {stray : Option Complaint} {c : Cursor}
    {ss : List Statement} {fs : List Format} (hrest : Cursor.atEnd ⟨rest, none⟩ = true)
    (hstack : Token.openAfter stack rest = some []) (hn : d.tokens.length < n)
    (hread : statements g n ⟨d.tokens ++ rest, stray⟩ = .ok (ss, c))
    (hfs : toFormats lexemes ss = .ok fs) (hstray : c.stray = none) :
    ∀ bound ∈ d.bounds, leavesBlock (tokensOf bound) = true := by
  have hbalanced : ∀ {d : Draft}, (∀ text ∈ d.texts, Denotes g text (canonical text)) →
      Token.openAfter [] d.tokens = some [] :=
    fun h => openAfter_tokens fun text ht => (h text ht).contained.balanced
  induction d generalizing rest stack n stray c ss fs with
  | done => simp [bounds]
  | read first more others ih =>
    obtain ⟨n, rfl⟩ : ∃ k, n = k + 1 := ⟨n - 1, by omega⟩
    obtain ⟨hindices, htexts⟩ := List.forall_mem_append.1 htexts
    simp only [tokens, List.length_cons, List.length_append] at hn
    obtain ⟨is, his, -⟩ := items_reads
      (fun i hi text ht => hindices text (List.mem_flatMap.2 ⟨i, hi, ht⟩)) (others.tokens ++ rest)
      stray
    rw [tokens, List.cons_append, List.append_assoc, List.cons_append, statements_read,
      bind_of_ok his, bind_of_ok (show symbol ";" _ = .ok (Token.symbol ";", _) from rfl)] at hread
    obtain ⟨ss', c', hothers, hread⟩ := bind_eq_ok_iff.1 hread
    cases hread
    obtain ⟨-, fs', -, hfs', -⟩ := toFormats_cons hfs
    exact ih htexts rest hrest hstack (by omega) hothers hfs' hstray
  | loop counter bound body others ihb iho =>
    obtain ⟨n, rfl⟩ : ∃ k, n = k + 1 := ⟨n - 1, by omega⟩
    obtain ⟨hbound, htexts⟩ := List.forall_mem_cons.1 htexts
    obtain ⟨htbody, htothers⟩ := List.forall_mem_append.1 htexts
    simp only [tokens, List.length_cons, List.length_append] at hn
    simp only [tokens, List.cons_append, List.append_assoc] at hread
    rw [statements_loop] at hread
    obtain ⟨l, c₁, hlocated, hread⟩ := bind_eq_ok_iff.1 hread
    obtain ⟨⟨⟩, c₂, henter, hread⟩ := bind_eq_ok_iff.1 hread
    obtain ⟨ss₁, c₃, hbody, hread⟩ := bind_eq_ok_iff.1 hread
    obtain ⟨⟨⟩, c₄, hleave, hread⟩ := bind_eq_ok_iff.1 hread
    obtain ⟨ss₂, c₅, hothers, hread⟩ := bind_eq_ok_iff.1 hread
    cases hread
    obtain ⟨first, fs₂, hfirst, hfs₂, -⟩ := toFormats_cons hfs
    obtain ⟨size, fs₁, hsize, hfs₁, -⟩ := toFormat_loop hfirst
    -- nothing stray at the end means nothing stray at any place before
    have hstray₄ : c₄.stray = none := (statements_of_ok hg.names hothers hfs₂).1.stray hstray
    have hstray₃ : c₃.stray = none := (Keeps.leave c₃ _ c₄ hleave).stray hstray₄
    have hstray₂ : c₂.stray = none := (statements_of_ok hg.names hbody hfs₁).1.stray hstray₃
    have hstray₁ : c₁.stray = none := (Keeps.enter .curly c₁ _ c₂ henter).stray hstray₂
    have hothers' : Token.openAfter stack (others.tokens ++ rest) = some [] := by
      rw [Token.openAfter_balanced (hbalanced htothers), hstack]
    have hclosing : Token.openAfter (.curly :: stack)
        (.closing .curly :: (others.tokens ++ rest)) = some [] := by
      rw [Token.openAfter, if_pos rfl, hothers']
    have hblock : Token.openAfter stack (.opening .curly ::
        (body.tokens ++ .closing .curly :: (others.tokens ++ rest))) = some [] := by
      rw [Token.openAfter, Token.openAfter_balanced (hbalanced htbody), hclosing]
    obtain ⟨hleaves, rfl⟩ := leavesBlock_of_located hg hbound.contained hlocated henter
      (arithmetic_of_canonicalize hsize) hstray₁ hblock
    rw [enter_opening] at henter
    cases henter
    -- no bound in the body takes a block either, so the body is read up to its end
    have hleavesBody := ihb htbody _ rfl hclosing (by omega) hbody hfs₁ hstray₃
    obtain ⟨ss₃, hss₃, -⟩ := statements_reads htbody hleavesBody
      (.closing .curly :: (others.tokens ++ rest)) none rfl (n := n) (by omega)
    rw [hss₃] at hbody
    cases hbody
    cases hleave
    have hleavesOthers := iho htothers rest hrest hstack (by omega) hothers hfs₂ hstray
    exact List.forall_mem_cons.2 ⟨hleaves, List.forall_mem_append.2 ⟨hleavesBody, hleavesOthers⟩⟩

/-! ## The whole description -/

theorem length_tokensOf_le_indices {text : String} {indices : List String} (h : text ∈ indices) :
    (tokensOf text).length ≤ (indicesTokens indices).length := by
  induction indices with
  | nil => cases h
  | cons index indices ih =>
    simp only [indicesTokens, Token.bracketed, List.length_append, List.length_cons]
    rcases List.mem_cons.1 h with rfl | h
    · omega
    · have := ih h
      omega

theorem length_tokensOf_le_items {text : String} {i first : Draft.Item} {more : List Draft.Item}
    (hi : i ∈ first :: more) (h : text ∈ i.indices) :
    (tokensOf text).length ≤ (itemsTokens first more).length := by
  have hitem : ∀ {i : Draft.Item}, text ∈ i.indices → (tokensOf text).length ≤ i.tokens.length :=
    fun h => (length_tokensOf_le_indices h).trans (Nat.le_succ _)
  induction more generalizing first with
  | nil =>
    obtain rfl := List.mem_singleton.1 hi
    exact hitem h
  | cons next more ih =>
    rw [itemsTokens, List.length_append, List.length_cons]
    rcases List.mem_cons.1 hi with rfl | hi
    · have := hitem h
      omega
    · have := ih hi
      omega

theorem length_tokensOf_le {d : Draft} {text : String} (h : text ∈ d.texts) :
    (tokensOf text).length ≤ d.tokens.length := by
  induction d with
  | done => cases h
  | read first more others ih =>
    simp only [tokens, List.length_cons, List.length_append]
    rcases List.mem_append.1 h with h | h
    · obtain ⟨i, hi, h⟩ := List.mem_flatMap.1 h
      have := length_tokensOf_le_items hi h
      omega
    · have := ih h
      omega
  | loop counter bound body others ihb iho =>
    simp only [tokens, List.length_cons, List.length_append]
    rcases List.mem_cons.1 h with rfl | h
    · omega
    · rcases List.mem_append.1 h with h | h
      · have := ihb h
        omega
      · have := iho h
        omega

/-- A draft whose tokens are all those of a text is read back from it just if no bound takes the body of
its loop. -/
theorem read_eq_ok_iff {d : Draft} {source : String} {lexemes : List Lexeme}
    (hscan : Scanner.scan source = .ok lexemes) (htokens : lexemes.map (·.token) = d.tokens)
    (htexts : ∀ text ∈ d.texts, Denotes (.forTokens d.tokens) text (canonical text)) (f : Format) :
    Format.read source = .ok f ↔
      (∀ bound ∈ d.bounds, leavesBlock (tokensOf bound) = true) ∧
        f = .sequence (d.formats canonical) := by
  have hforward := fun hbounds =>
    statements_reads htexts hbounds [] none rfl (Nat.lt_succ_self d.tokens.length)
  simp only [List.append_nil] at hforward
  rw [Format.read_eq_ok_iff]
  constructor
  · rintro ⟨lexemes', ss, fs, hscan', hread, hfs, rfl⟩
    obtain rfl : lexemes = lexemes' := Except.ok.inj (hscan.symm.trans hscan')
    rw [htokens] at hread
    have hbounds := leavesBlock_of_statements (Grammar.ofDepth_carries (Nat.le_refl _)) htexts []
      rfl rfl (Nat.lt_succ_self _) (by rwa [List.append_nil]) hfs rfl
    obtain ⟨ss', hread', hformats⟩ := hforward hbounds
    rw [hread'] at hread
    cases hread
    rw [hformats] at hfs
    cases hfs
    exact ⟨hbounds, rfl⟩
  · rintro ⟨hbounds, rfl⟩
    obtain ⟨ss, hread, hformats⟩ := hforward hbounds
    exact ⟨lexemes, ss, _, hscan, by rwa [htokens], hformats lexemes, rfl⟩

end Draft

/-- A written draft whose subscripts and bounds can be simplified is read as its format, with each of
them simplified, unless the last word of a bound takes the body of its loop; in that case it is refused.
Any word may be the name of a variable or a counter. -/
theorem parse_text_iff {d : Draft} {canonical : String → String}
    (hwords : ∀ w ∈ d.words, Scanner.identAt w.toList = some w.toList)
    (htexts : ∀ text ∈ d.texts, simplify text = .ok (canonical text) ∧
      Scanner.commentFree 0 text.toList = true ∧ text.toList.head? ≠ some '\ufeff')
    (name : String) (color : Bool) (f : Format) :
    Format.parse name d.text color = .ok f ↔
      (∀ bound ∈ d.bounds, leavesBlock (Draft.tokensOf bound) = true) ∧
        f = .sequence (d.formats canonical) := by
  have hscannable : ∀ text ∈ d.texts, Draft.Scannable text := fun text ht =>
    Draft.scannable_of_simplify (htexts text ht).1 (htexts text ht).2.1 (htexts text ht).2.2
  obtain ⟨lexemes, hscan, htokens⟩ := Draft.scan_text hwords hscannable
  have hdenotes : ∀ text ∈ d.texts,
      Draft.Denotes (.forTokens d.tokens) text (canonical text) := fun text ht =>
    Draft.denotes_of_simplify (htexts text ht).1 (hscannable text ht) <| by
      have := Draft.length_tokensOf_le ht
      rw [Grammar.depthFor, Grammar.depthFor]
      omega
  rw [Format.parse_eq_ok_iff, Draft.read_eq_ok_iff hscan htokens hdenotes]

/-- Variables and counters with reserved names, a bound that begins with `try` and a subscript that ends
with it. -/
def Draft.reservedNames : Draft :=
  .read ⟨"upto", []⟩ [⟨"_", []⟩] (.loop "read" "upto + upto"
    (.loop "i" "try + 1" (.read ⟨"for", ["(read)", "i - try + try"]⟩ [] .done) .done) .done)

theorem parse_text_iff_reservedNames :
    Draft.reservedNames.text = "read upto, _; for read upto upto + upto \x7b " ++
      "for i upto try + 1 \x7b read for[(read)][i - try + try]; \x7d \x7d " ∧
    (∀ w ∈ Draft.reservedNames.words, Scanner.identAt w.toList = some w.toList) ∧
    (∃ canonical : String → String, ∀ text ∈ Draft.reservedNames.texts,
      simplify text = .ok (canonical text) ∧ Scanner.commentFree 0 text.toList = true ∧
        text.toList.head? ≠ some '\ufeff') ∧
    Format.parse "format" Draft.reservedNames.text false = .ok (.sequence
      [.sequence [.item "upto" [], .item "_" [], .newline],
        .loop "read" "2 * upto" (.sequence [.loop "i" "try + 1" (.sequence
          [.sequence [.item "for" ["read", "i"], .newline]])])]) := by
  have hwords : ∀ w ∈ Draft.reservedNames.words, Scanner.identAt w.toList = some w.toList := by
    decide +kernel
  have hcanonical : ∃ canonical : String → String, canonical "upto + upto" = "2 * upto" ∧
      canonical "try + 1" = "try + 1" ∧ canonical "(read)" = "read" ∧
      canonical "i - try + try" = "i" :=
    ⟨fun text => if text = "upto + upto" then "2 * upto" else if text = "(read)" then "read"
      else if text = "i - try + try" then "i" else text, by decide⟩
  obtain ⟨canonical, hsum, htry, hround, hdifference⟩ := hcanonical
  have htexts : ∀ text ∈ Draft.reservedNames.texts, simplify text = .ok (canonical text) ∧
      Scanner.commentFree 0 text.toList = true ∧ text.toList.head? ≠ some '\ufeff' := by
    have htexts : Draft.reservedNames.texts =
        ["upto + upto", "try + 1", "(read)", "i - try + try"] := rfl
    simp only [htexts, List.forall_mem_cons, hsum, htry, hround, hdifference]
    refine ⟨⟨ok_of_toOption ?_, ?_⟩, ⟨ok_of_toOption ?_, ?_⟩, ⟨ok_of_toOption ?_, ?_⟩,
      ⟨ok_of_toOption ?_, ?_⟩, fun _ h => nomatch h⟩ <;> decide +kernel
  refine ⟨by decide +kernel, hwords, ⟨canonical, htexts⟩, ?_⟩
  refine (parse_text_iff hwords htexts "format" false _).2 ⟨by decide +kernel, ?_⟩
  simp [Draft.reservedNames, Draft.formats, hsum, htry, hround, hdifference]

/-- The word `try` can be simplified, but a loop up to it is refused: its body is taken for a block of
the bound. -/
theorem parse_text_tryBound :
    (Draft.loop "i" "try" .done .done).text = "for i upto try \x7b \x7d " ∧
      simplify "try" = .ok "try" ∧ Scanner.commentFree 0 "try".toList = true ∧
      "try".toList.head? ≠ some '\ufeff' ∧
      ∀ f, Format.parse "format" "for i upto try \x7b \x7d " false ≠ .ok f := by
  refine ⟨by decide +kernel, ok_of_toOption (by decide +kernel), by decide +kernel,
    by decide +kernel, fun f h => ?_⟩
  have hnone : (Format.parse "format" "for i upto try \x7b \x7d " false).toOption.isNone = true := by
    decide +kernel
  rw [h] at hnone
  cases hnone

end ReaderGen
