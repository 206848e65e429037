import TagScript.Proofs.Eval.Fuel
import TagScript.Proofs.Layout.Eval
import TagScript.Proofs.Layout.Variant

set_option autoImplicit false

/-! # Layout does not matter

Layout variants of a document are read as the same tree up to places, a tree gives the same program
or the same error up to places whatever its places are, and a program runs alike up to places
whatever its places are. Together: how a document is laid out has no effect on what it does. -/

namespace TagScript

open Markup (Node)

/-- Programs that are the same up to places run alike up to places, without tracing. -/
theorem Program.run_of_bare_eq {p p' : Program} (h : p.bare = p'.bare) {opts : Options}
    (hdebug : opts.debug = false) (fuel : Nat) (arguments : List String) (s : State) :
    (p.run opts fuel arguments s).bare id = (p'.run opts fuel arguments s).bare id := by
  have hp := Program.run_bare hdebug fuel p arguments s
  rw [h] at hp
  exact hp.symm.trans (Program.run_bare hdebug fuel p' arguments s)

/-- A layout variant of a document can be read too, as the same tree; the analysis of both gives the
    same program or the same error; and without tracing, both programs run alike on all arguments,
    files and inputs: all of it up to places. -/
theorem layout_independent {file text text' : String} {root : Node}
    (hparse : Markup.parse .document file text = .ok root)
    (hvariant : Markup.Variant text.toList text'.toList) (file' : String) :
    ∃ root', Markup.parse .document file' text' = .ok root' ∧ root.bare = root'.bare ∧
      Analysis.bareOutcome Program.bare (Analysis.program root).outcome
        = Analysis.bareOutcome Program.bare (Analysis.program root').outcome ∧
      ∀ p p', (Analysis.program root).outcome = .ok p →
        (Analysis.program root').outcome = .ok p' →
        ∀ opts : Options, opts.debug = false → ∀ fuel arguments files stdin,
          (p.run opts fuel arguments (Program.start files stdin)).bare id
            = (p'.run opts fuel arguments (Program.start files stdin)).bare id := by
  obtain ⟨_, root', hparse', hread, hbare⟩ := hvariant.parse file file'
  cases hparse.symm.trans hparse'
  have houtcome := Analysis.program_outcome_of_bare_eq hbare
  refine ⟨root', hread, hbare, houtcome, ?_⟩
  intro p p' hp hp' opts hdebug fuel arguments files stdin
  rw [hp, hp'] at houtcome
  exact Program.run_of_bare_eq (Except.ok.inj houtcome) hdebug fuel arguments _

/-! ### A program in two layouts -/

section Example

open Markup

/-- A program that does nothing but name a text. -/
def plainDocument : String := "<program><main><string value=\"A\"/></main></program>"

/-- The tree of the program. -/
def plainTree : Node :=
  .mk "program" []
    [.mk "main" []
      [.mk "string" [("value", "A")] [] ⟨⟨"f", 1, 16, 1, 35⟩, true⟩]
      ⟨⟨"f", 1, 10, 1, 42⟩, false⟩]
    ⟨⟨"f", 1, 1, 1, 52⟩, false⟩

/-- The same program in another layout. -/
def ornateDocument : String :=
  "<!---->\n<program><MAIN> text\t<string value = '&#65;' /></MAIN></program>"

/-- An element without attributes, its tag in two cases. -/
theorem elementVariant_of_names {inner inner' : List Char} (name name' : List Char)
    (hname : IsName name) (hname' : IsName name') (hlower : lowerCase name' = lowerCase name)
    (hinner : ContentsVariant inner inner') :
    ElementVariant (['<'] ++ name ++ ['>'] ++ inner ++ ['<', '/'] ++ name ++ ['>'])
      (['<'] ++ name' ++ ['>'] ++ inner' ++ ['<', '/'] ++ name' ++ ['>']) := by
  have hopening : ∀ {n : List Char}, IsName n → lowerCase n = lowerCase name →
      WritesOpening ['>'] (lowerCase name) [] n := fun hn hl =>
    ⟨⟨_, [], [], by simp, hn, hl, .nil, .nil, .cons rfl []⟩, .nil⟩
  have hclosing : ∀ {n : List Char}, IsName n → lowerCase n = lowerCase name →
      WritesClosing (lowerCase name) n := fun hn hl => by
    simpa using WritesClosing.mk hn hl .nil
  exact .full (hopening hname rfl) (hopening hname' hlower) hinner (hclosing hname rfl)
    (hclosing hname' hlower)

/-- The text is named in two ways: in quotes of either style, and as itself or by its code point. -/
theorem stringElement_variant :
    ElementVariant "<string value=\"A\"/>".toList "<string value = '&#65;' />".toList := by
  have hspace : IsLayout [' '] := by decide
  have hvalue : IsName "value".toList := by decide
  have hstring : IsName "string".toList := by decide
  have hcode : Entity.Reference ('#' :: ['6', '5']) 'A' :=
    .decimal (List.all_eq_true.1 (by decide)) (by decide) (by decide) (by decide)
  have hplain : WritesAttribute ("value", "A") " value=\"A\"".toList :=
    @WritesAttribute.mk [' '] _ [] [] ['A'] ['A'] Text.doubleQuote hspace hvalue .nil .nil
      (.inl rfl) (by simp [Text.doubleQuote]) (by decide) (.cons (.literal (by decide)) .nil)
  have hornate : WritesAttribute ("value", "A") " value = '&#65;'".toList :=
    @WritesAttribute.mk [' '] _ [' '] [' '] ['&', '#', '6', '5', ';'] ['A'] Text.singleQuote hspace
      hvalue hspace hspace (.inr rfl) (by simp [Text.singleQuote]) (by decide)
      (.cons (.reference hcode) .nil)
  have helement := @ElementVariant.empty "string".toList _ _ [("value", "A")]
    ⟨⟨_, " value=\"A\"".toList, [], rfl, hstring, by decide, .cons hplain .nil, .nil,
      .cons rfl _⟩, by decide⟩
    ⟨⟨_, " value = '&#65;'".toList, [' '], rfl, hstring, by decide, .cons hornate .nil, hspace,
      .cons rfl _⟩, by decide⟩
  exact Eq.mp (congr (congrArg ElementVariant (by simp)) (by simp)) helement

theorem ornateDocument_variant : Variant plainDocument.toList ornateDocument.toList := by
  have hfiller : Filler " text\t".toList := @Filler.text " text\t".toList [] (by decide) .nil
  have hmain := elementVariant_of_names "main".toList "MAIN".toList (by decide) (by decide)
    (by decide) (.cons .nil hfiller stringElement_variant (.nil .nil .nil))
  have hprogram := elementVariant_of_names "program".toList "program".toList (by decide)
    (by decide) rfl (.cons .nil .nil hmain (.nil .nil .nil))
  have hcomment : Comment "<!---->".toList := @Comment.mk [] fun u v h => by
    have hlength := congrArg List.length h
    simp only [List.length_append, List.length_cons, List.length_nil] at hlength
    exact List.length_eq_zero_iff.1 (by omega)
  have hnewline : IsLayout ['\n'] := by decide
  have hvariant := Variant.mk (.layout .nil) (.misc .nil (.comment hcomment) (.layout hnewline))
    hprogram (.layout .nil) (.layout .nil)
  exact Eq.mp (congr (congrArg Variant (by simp [plainDocument])) (by simp [ornateDocument]))
    hvariant

/-- The two layouts of the program, read from two files. -/
theorem layout_independent_ornate :
    Markup.parse .document "f" plainDocument = .ok plainTree ∧
    ∃ root', Markup.parse .document "g" ornateDocument = .ok root' ∧
      plainTree.bare = root'.bare ∧
      ∃ p p', (Analysis.program plainTree).outcome = .ok p ∧
        (Analysis.program root').outcome = .ok p' ∧
        ∀ fuel, (p.run {} fuel [] (Program.start {} {})).bare id
          = (p'.run {} fuel [] (Program.start {} {})).bare id := by
  have hparse : Markup.parse .document "f" plainDocument = .ok plainTree := by rfl
  obtain ⟨p, hp⟩ : ∃ p, (Analysis.program plainTree).outcome = .ok p := ⟨_, rfl⟩
  obtain ⟨root', hread, hbare, houtcome, hrun⟩ :=
    layout_independent hparse ornateDocument_variant "g"
  obtain ⟨p', hp'⟩ : ∃ p', (Analysis.program root').outcome = .ok p' := by
    rw [hp] at houtcome
    cases h : (Analysis.program root').outcome with
    | ok p' => exact ⟨p', rfl⟩
    | error e =>
        rw [h] at houtcome
        cases houtcome
  exact ⟨hparse, root', hread, hbare, p, p', hp, hp',
    fun fuel => hrun p p' hp hp' {} rfl fuel [] {} {}⟩

end Example

end TagScript
