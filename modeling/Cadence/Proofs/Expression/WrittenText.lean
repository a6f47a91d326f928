import Cadence.Proofs.Expression.Spelling
import Cadence.Schedule.Text
import Cadence.Schedule.WellFormed

/-!
# Cutting written texts

A text is written as spellings with a blank or a comma between neighbours.
Cutting it gives back the symbols spelled: what is written is cut the same way
wherever it stands, as long as a boundary follows.
-/

namespace Cadence

/-- From any position on, a text is cut into tokens with these symbols. -/
def CutInto (zoneNext : Bool) (text : List Char) (symbols : List Symbol) : Prop :=
  ∀ position, ∃ tokens, tokensFrom position zoneNext text = .ok tokens ∧
    tokens.map Token.symbol = symbols

namespace CutInto

variable {zoneNext : Bool} {symbols : List Symbol}

theorem nil : CutInto false [] [] := by
  intro position
  exact ⟨[], by rw [tokensFrom]; rfl, rfl⟩

theorem blank {text : List Char} (htext : CutInto zoneNext text symbols) {c : Char}
    (hc : isAsciiBlank c = true) : CutInto zoneNext (c :: text) symbols := by
  intro position
  obtain ⟨tokens, htokens, hsymbols⟩ := htext (position + 1)
  refine ⟨tokens, ?_, hsymbols⟩
  rw [tokensFrom, if_pos hc, htokens]

/-- One lexeme and what is cut from the text behind it. -/
theorem lexeme {first : Char} (tail : List Char) {rest : List Char} {symbol : Symbol}
    (hfirst : isAsciiBlank first = false)
    (hlexeme : (if zoneNext then readZoneName first (tail ++ rest)
      else readLexeme first (tail ++ rest)) = ⟨tail.length, .ok symbol⟩)
    (hrest : CutInto (symbol = .keyword .«in») rest symbols) :
    CutInto zoneNext (first :: (tail ++ rest)) (symbol :: symbols) := by
  intro position
  obtain ⟨tokens, htokens, hsymbols⟩ := hrest (position + byteLength (first :: tail))
  refine ⟨⟨symbol, ⟨position, position + byteLength (first :: tail)⟩⟩ :: tokens, ?_, ?_⟩
  · rw [tokensFrom]
    simp only [hfirst, hlexeme, List.take_left, List.drop_left, htokens, Bool.false_eq_true,
      if_false]
  · rw [List.map_cons, hsymbols]

end CutInto

/-- A text at a boundary, and what it is cut into. -/
structure Continuation (text : List Char) (symbols : List Symbol) : Prop where
  atBoundary : AtBoundary text
  cutInto : CutInto false text symbols

namespace Continuation

variable {text : List Char} {symbols : List Symbol}

theorem nil : Continuation [] [] := ⟨nofun, .nil⟩

theorem blank (htext : CutInto false text symbols) : Continuation (' ' :: text) symbols :=
  ⟨fun _ hc => .inl (Option.some.inj hc).symm, htext.blank rfl⟩

theorem comma (htext : CutInto false text symbols) :
    Continuation (',' :: text) (.comma :: symbols) := by
  refine ⟨fun _ hc => .inr (Option.some.inj hc).symm, ?_⟩
  exact CutInto.lexeme [] (by decide) rfl htext

end Continuation

/-- Wherever a text stands before a continuation, it is cut into these
symbols. -/
def Writes (text : String) (symbols : List Symbol) : Prop :=
  ∀ rest after, Continuation rest after → CutInto false (text.toList ++ rest) (symbols ++ after)

namespace Writes

variable {first second : String} {symbols others : List Symbol}

/-- A spelling writes its symbol.  The word `in` is left out, since a zone name
has to follow it. -/
theorem of_spells {symbol : Symbol} (hspells : Spells first symbol)
    (hin : symbol ≠ .keyword .«in») : Writes first [symbol] := by
  intro rest after hrest
  obtain ⟨c, tail, htext, hblank, hread⟩ := hspells
  have hafter : CutInto (symbol = .keyword .«in») rest after := by
    rw [decide_eq_false hin]
    exact hrest.cutInto
  rw [htext]
  exact .lexeme tail hblank (hread rest hrest.atBoundary) hafter

theorem word {symbol : Symbol} (hword : symbolOfWord? first = some symbol)
    (hin : symbol ≠ .keyword .«in») : Writes first [symbol] :=
  of_spells (spells_of_symbolOfWord? hword) hin

/-- Two texts with a blank between them. -/
theorem blank (hfirst : Writes first symbols) (hsecond : Writes second others) :
    Writes (first ++ " " ++ second) (symbols ++ others) := by
  intro rest after hrest
  have hboth := hfirst _ _ (.blank (hsecond rest after hrest))
  rw [List.append_assoc, String.toList_append, String.toList_append, List.append_assoc,
    List.append_assoc]
  exact hboth

/-- Two entries of a list. -/
theorem comma (hfirst : Writes first symbols) (hsecond : Writes second others) :
    Writes (first ++ ", " ++ second) (symbols ++ .comma :: others) := by
  intro rest after hrest
  have hboth := hfirst _ _ (.comma ((hsecond rest after hrest).blank (c := ' ') rfl))
  rw [List.append_assoc, String.toList_append, String.toList_append, List.append_assoc,
    List.append_assoc]
  exact hboth

/-- Words of the vocabulary with a blank between neighbours. -/
theorem phrase (word : String) (others : List String) {text : String}
    (htext : text = Cadence.joined " " (word :: others))
    (hwords : (word :: others).map symbolOfWord? = symbols.map some)
    (hin : .keyword .«in» ∉ symbols) : Writes text symbols := by
  subst htext
  induction others generalizing word symbols with
  | nil =>
    obtain ⟨symbol, later, rfl, hword, hlater⟩ := List.map_eq_cons_iff.mp hwords.symm
    obtain rfl := List.map_eq_nil_iff.mp hlater
    exact .word hword.symm (List.ne_of_not_mem_cons hin).symm
  | cons second others ih =>
    obtain ⟨symbol, later, rfl, hword, hlater⟩ := List.map_eq_cons_iff.mp hwords.symm
    obtain ⟨hne, hin⟩ := List.ne_and_not_mem_of_not_mem_cons hin
    exact (Writes.word hword.symm hne.symm).blank (ih second hlater.symm hin)

end Writes

/-- A text with a blank behind it, to which another text may be added. -/
def Leads (text : String) (symbols : List Symbol) : Prop :=
  ∃ words, text = words ++ " " ∧ Writes words symbols

/-- A text between two blanks, which may stand between two others. -/
def Links (text : String) (symbols : List Symbol) : Prop :=
  ∃ words, text = " " ++ words ++ " " ∧ Writes words symbols

section Phrases

variable {first link second : String} {symbols middle others : List Symbol}

theorem Leads.append (hfirst : Leads first symbols) (hsecond : Writes second others) :
    Writes (first ++ second) (symbols ++ others) := by
  obtain ⟨words, rfl, hwords⟩ := hfirst
  exact hwords.blank hsecond

theorem Links.between (hlink : Links link middle) (hfirst : Writes first symbols)
    (hsecond : Writes second others) :
    Writes (first ++ link ++ second) (symbols ++ (middle ++ others)) := by
  obtain ⟨words, rfl, hwords⟩ := hlink
  have hall := hfirst.blank (hwords.blank hsecond)
  simpa only [String.append_assoc] using hall

end Phrases

/-- The symbols of a list with a comma between neighbours. -/
def commaSeparated : List (List Symbol) → List Symbol
  | [] => []
  | entry :: entries => entry ++ entries.flatMap fun other => .comma :: other

theorem commaSeparated_cons_cons (entry other : List Symbol) (entries : List (List Symbol)) :
    commaSeparated (entry :: other :: entries) =
      entry ++ .comma :: commaSeparated (other :: entries) := by
  rw [commaSeparated, commaSeparated, List.flatMap_cons, List.cons_append]

/-- A list of written entries, at least one. -/
theorem Writes.joined {α : Type} {text : α → String} {symbols : α → List Symbol} :
    ∀ {items : List α}, items ≠ [] → (∀ item ∈ items, Writes (text item) (symbols item)) →
      Writes (joined ", " (items.map text)) (commaSeparated (items.map symbols))
  | [], hne, _ => absurd rfl hne
  | [item], _, hitems => by
    have hitem := hitems item List.mem_cons_self
    simpa only [List.map_cons, List.map_nil, Cadence.joined, commaSeparated, List.flatMap_nil,
      List.append_nil] using hitem
  | item :: other :: items, _, hitems => by
    obtain ⟨hitem, hrest⟩ := List.forall_mem_cons.mp hitems
    have hlist := Writes.joined (List.cons_ne_nil other items) hrest
    simp only [List.map_cons] at hlist ⊢
    rw [Cadence.joined, commaSeparated_cons_cons]
    · exact hitem.comma hlist
    · rintro ⟨⟩

/-! ## Clauses -/

/-- The symbols of a clause, none if there is nothing for it to govern. -/
def clauseSymbols (word : Keyword) : List (List Symbol) → List Symbol
  | [] => []
  | entry :: entries => .keyword word :: commaSeparated (entry :: entries)

theorem toList_clauseText (word entry : String) (entries : List String) :
    (clauseText word (entry :: entries)).toList =
      ' ' :: (word ++ " " ++ joined ", " (entry :: entries)).toList := by
  simp only [clauseText, String.toList_append, List.append_assoc]
  rfl

namespace Continuation

/-- A clause in front of a continuation. -/
theorem clause {α : Type} {text : α → String} {symbols : α → List Symbol} {items : List α}
    {word : String} {keyword : Keyword} {rest : List Char} {after : List Symbol}
    (hword : symbolOfWord? word = some (.keyword keyword)) (hin : keyword ≠ .«in»)
    (hitems : ∀ item ∈ items, Writes (text item) (symbols item)) (hrest : Continuation rest after) :
    Continuation ((clauseText word (items.map text)).toList ++ rest)
      (clauseSymbols keyword (items.map symbols) ++ after) := by
  cases items with
  | nil => exact hrest
  | cons item items =>
    have hhead : Writes word [.keyword keyword] := .word hword fun hsame =>
      hin (Symbol.keyword.inj hsame)
    have hlist := Writes.joined (List.cons_ne_nil item items) hitems
    rw [List.map_cons, toList_clauseText]
    exact .blank ((hhead.blank hlist) rest after hrest)

/-- The name of a zone, which ends the text. -/
theorem zone {name : String} (hname : ZoneNameWellFormed name) :
    Continuation (clauseText "in" [name]).toList [.keyword .«in», .zone name] := by
  obtain ⟨hne, hblanks⟩ := hname
  have hchars : name.toList ≠ [] := fun hnil => hne (String.toList_inj.mp hnil)
  obtain ⟨first, tail, hname⟩ := List.exists_cons_of_ne_nil hchars
  rw [hname] at hblanks
  have hread : readZoneName first (tail ++ []) = ⟨tail.length, .ok (.zone name)⟩ := by
    have hrun : (tail ++ []).takeWhile (!isAsciiBlank ·) = tail := by
      have hend : ∀ c ∈ ([] : List Char).head?, (!isAsciiBlank c) = false := nofun
      refine (takeWhile_dropWhile_append (fun c hc => ?_) hend).1
      rw [hblanks c (List.mem_cons_of_mem _ hc), Bool.not_false]
    rw [readZoneName, hrun, ← hname, String.ofList_toList]
  have hzone : CutInto true (first :: (tail ++ [])) [.zone name] :=
    .lexeme tail (hblanks first List.mem_cons_self) hread .nil
  have hspells : Spells "in" (.keyword .«in») := spells_of_symbolOfWord? rfl
  obtain ⟨c, letters, htext, hblank, hword⟩ := hspells
  rw [toList_clauseText, String.toList_append, String.toList_append, htext, joined, hname,
    List.append_assoc, ← List.append_nil tail]
  refine .blank (.lexeme letters hblank ?_ (hzone.blank rfl))
  exact hword _ fun _ hc => .inl (Option.some.inj hc).symm

end Continuation

end Cadence
