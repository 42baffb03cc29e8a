import Verl.Base.Strings
import Verl.Base.Tags

/-! The text handling of `verl/utils/reward_score/coder1/__init__.py`: the format gate
`validate_response_structure`, and `extract_code_from_string`, which takes the last answer section
and joins its fenced blocks. -/
namespace Verl.Coder1
open Text

section Model

def thinkOpen : Text := "<think>".toList

def thinkClose : Text := "</think>".toList

def answer : Tags Char where
  opening := ⟨'<', "answer>".toList, by decide⟩
  closing := ⟨'<', "/answer>".toList, by decide⟩
  openingFresh := by decide
  closingFresh := by decide
  apart := by simp [Marker.word]

def endAnchor : Pattern Char := fun s => if s = [] ∨ s = ['\n'] then [([], s)] else []

def structurePattern : Pattern Char :=
  seq (lit thinkOpen) (seq greedyAny (seq (lit thinkClose) (seq greedyAny
    (seq (lit answer.opening.word) (seq greedyAny (seq (lit answer.closing.word) endAnchor))))))

def validateResponseStructure (processedStr : Text) : Bool :=
  !(structurePattern (strip processedStr)).isEmpty

def tryExtractSolution (solutionStr : Text) : Text :=
  match (findall answer.sections solutionStr).getLast? with
  | some group => strip group
  | none => solutionStr

structure WordClass where
  isWord : Char → Bool
  newline : isWord '\n' = false
  backtick : isWord '`' = false

def fence : Text := ['`', '`', '`']

def closingFence : Marker Char := ⟨'\n', fence, by decide⟩

/-- `CODE_PATTERN`: three backticks, `(?:\w+)?`, a newline, `(.*?)`, a newline and three
backticks. -/
def codePattern (w : WordClass) : Pattern Char :=
  seq (lit fence) (seq (greedyClass w.isWord)
    (seq (lit ['\n']) (seq lazyGroup (lit closingFence.word))))

def joinedCode (w : WordClass) (text : Text) : Text :=
  strip (joinLines (findall (codePattern w) text))

def extractCodeFromString (w : WordClass) (solutionStr : Text) : Text :=
  joinedCode w (tryExtractSolution solutionStr)

/-- The code that `_compute_score` goes on to execute, if the response passes its first check. -/
def executedCode (w : WordClass) (solutionStr : Text) : Option Text :=
  let passFmt := validateResponseStructure solutionStr
  let solutionCode := extractCodeFromString w solutionStr
  if !passFmt || solutionCode.length == 0 then none else some solutionCode

end Model

section Responses

/-- A response of the demanded shape. Nothing is said about the think text or about what stands
between the two sections. -/
structure Response where
  lead : Text
  think : Text
  between : Text
  answerText : Text
  trail : Text
  leadBlank : ∀ c ∈ lead, isSpace c = true
  trailBlank : ∀ c ∈ trail, isSpace c = true
  noOpening : ¬answer.opening.word <:+: answerText
  noClosing : ¬answer.closing.word <:+: answerText

def Response.before (r : Response) : Text :=
  r.lead ++ (thinkOpen ++ (r.think ++ (thinkClose ++ r.between)))

def Response.text (r : Response) : Text :=
  r.before ++ (answer.opening.word ++ (r.answerText ++ answer.closing.word ++ r.trail))

/-- The gate accepts a text exactly if it can be read as the two sections, whatever else they
hold. -/
theorem validateResponseStructure_iff (s : Text) : validateResponseStructure s = true ↔ ∃ t m a e,
    strip s = thinkOpen ++
      (t ++ (thinkClose ++ (m ++ (answer.opening.word ++ (a ++ (answer.closing.word ++ e)))))) ∧
      (e = [] ∨ e = ['\n']) := by
  have ends : ∀ e way, way ∈ endAnchor e ↔ way = ([], e) ∧ (e = [] ∨ e = ['\n']) := by
    intro e way
    unfold endAnchor
    split <;> simp_all
  rw [validateResponseStructure, Bool.not_eq_true', List.isEmpty_eq_false_iff_exists_mem]
  simp only [structurePattern, mem_seq_lit, mem_seq_greedyAny, ends]
  constructor
  · rintro ⟨way, s₁, h₁, t, s₂, rfl, s₃, rfl, m, s₄, rfl, s₅, rfl, a, s₆, rfl, e, rfl, -, last⟩
    exact ⟨t, m, a, e, h₁, last⟩
  · rintro ⟨t, m, a, e, shape, last⟩
    exact ⟨([], e), _, shape, t, _, rfl, _, rfl, m, _, rfl, _, rfl, a, _, rfl, e, rfl, rfl, last⟩

theorem Response.strip_text (r : Response) : strip r.text =
    thinkOpen ++ (r.think ++
      (thinkClose ++ (r.between ++
      (answer.opening.word ++ (r.answerText ++ (answer.closing.word ++ [])))))) := by
  let x := thinkOpen ++
    (r.think ++ (thinkClose ++
    (r.between ++ (answer.opening.word ++ (r.answerText ++ answer.closing.word)))))
  have nonempty : x ≠ [] := List.cons_ne_nil _ _
  have last : x.getLast nonempty = '>' := by
    have ends : x = (thinkOpen ++ (r.think ++ (thinkClose ++ (r.between ++ (answer.opening.word ++
        (r.answerText ++ "</answer".toList)))))) ++ ['>'] := by
      have closing : answer.closing.word = "</answer".toList ++ ['>'] := rfl
      simp only [x, closing, List.append_assoc]
    simp only [ends, List.getLast_concat]
  have first : x.head nonempty = '<' := rfl
  have body := trim_surround r.leadBlank r.trailBlank nonempty (by rw [first]; decide)
    (by rw [last]; decide)
  have text : r.text = r.lead ++ (x ++ r.trail) := by
    simp only [x, Response.text, Response.before, List.append_assoc]
  rw [text, strip, body, List.append_nil]

theorem Response.accepted (r : Response) : validateResponseStructure r.text = true :=
  (validateResponseStructure_iff r.text).mpr ⟨_, _, _, [], r.strip_text, .inl rfl⟩

theorem opening_not_blank (c : Char) (inside : c ∈ answer.opening.word) : isSpace c = false := by
  have solid : answer.opening.word.all (fun c => !isSpace c) = true := by decide
  simpa using List.all_eq_true.mp solid c inside

theorem Response.no_opening_in_trail (r : Response) : ¬answer.opening.word <:+: r.trail := by
  intro occurs
  have blank := r.trailBlank '<' (occurs.subset List.mem_cons_self)
  exact absurd blank (by decide)

/-- The text that the code blocks are searched in is the answer, exactly if no opening tag before it
is left unclosed. -/
theorem tryExtractSolution_iff (r : Response) :
    tryExtractSolution r.text = strip r.answerText ↔ ¬answer.Unclosed r.before := by
  obtain ⟨groups, last, found, own, taken⟩ :=
    Tags.findall_last r.before r.answerText r.trail r.noClosing r.no_opening_in_trail
  have extracted : tryExtractSolution r.text = strip last := by
    rw [tryExtractSolution, Response.text, found, List.getLast?_concat]
  rw [extracted]
  constructor
  · intro same unclosed
    obtain ⟨v, rfl⟩ := taken unclosed
    have kept : answer.opening.word <:+: strip (v ++ (answer.opening.word ++ r.answerText)) :=
      infix_trim (by simp [Marker.word]) opening_not_blank ⟨v,
        r.answerText, by rw [List.append_assoc]⟩
    rw [same] at kept
    exact r.noOpening (kept.trans (trim_inside r.answerText))
  · intro closed
    rw [own closed]

def answerCode (w : WordClass) (answerText : Text) : Option Text :=
  let code := joinedCode w (strip answerText)
  if code.length == 0 then none else some code

/-- Every response of the shape passes the gate. Its code comes from the answer alone exactly if
no opening tag of the think text or behind it is left unclosed before the answer. -/
theorem executedCode_from_answer_iff (w : WordClass) (r : Response) :
    validateResponseStructure r.text = true ∧
      (tryExtractSolution r.text = strip r.answerText ↔ ¬answer.Unclosed r.before) ∧
      (¬answer.Unclosed r.before → executedCode w r.text = answerCode w r.answerText) := by
  refine ⟨r.accepted, tryExtractSolution_iff r, fun closed => ?_⟩
  have text := (tryExtractSolution_iff r).mpr closed
  simp only [executedCode, r.accepted, extractCodeFromString, text, answerCode, Bool.not_true,
    Bool.false_or]

def asciiWord : WordClass := ⟨fun c => c.isAlphanum || c == '_', by decide, by decide⟩

def sampleResponse (think : Text) : Response where
  lead := []
  think := think
  between := []
  answerText := "```\ny\n```".toList
  trail := []
  leadBlank := by simp
  trailBlank := by simp
  noOpening := by decide
  noClosing := by decide

/-- An opening tag in the think text makes the block behind it part of the executed code. -/
theorem executedCode_depends_on_think :
    validateResponseStructure (sampleResponse []).text = true ∧
      validateResponseStructure (sampleResponse "<answer>```\nx\n```\n".toList).text = true ∧
      executedCode asciiWord (sampleResponse []).text = some "y".toList ∧
      executedCode asciiWord (sampleResponse "<answer>```\nx\n```\n".toList).text =
        some "x\ny".toList := by
  decide +kernel

/-- Mentioning a closed section while thinking does no harm. -/
theorem executedCode_from_answer_sample :
    executedCode asciiWord (sampleResponse "<answer>```\nx\n```</answer>".toList).text =
      answerCode asciiWord "```\ny\n```".toList := by
  apply (executedCode_from_answer_iff asciiWord _).2.2
  have cut : (sampleResponse "<answer>```\nx\n```</answer>".toList).before =
      "<think><answer>```\nx\n```".toList ++ (answer.closing.word ++ thinkClose) := by
        decide +kernel
  rw [cut, Tags.unclosed_append_closing]
  exact Tags.not_unclosed_of_none (by decide)

end Responses

section Fences

structure Block (w : WordClass) where
  info : Text
  body : Text
  prose : Text
  infoWord : ∀ c ∈ info, w.isWord c = true
  bodyOpen : ¬closingFence.word <:+: body
  plain : ¬fence <:+: prose

variable {w : WordClass}

def render (prose : Text) : List (Block w) → Text
  | [] => prose
  | block :: blocks =>
    prose ++ (fence ++
      (block.info ++ ('\n' :: (block.body ++ closingFence.word ++ render block.prose blocks))))

theorem consumes_codePattern : Consumes (2 + 1) (codePattern w) := by
  intro s way member
  have taken := consumes_seq (consumes_lit fence) (consumes_seq (consumes_greedyClass w.isWord)
    (consumes_seq (consumes_lit ['\n'])
      (consumes_seq consumes_lazyGroup (consumes_lit closingFence.word)))) s way member
  simp only [fence, List.length_cons, List.length_nil] at taken
  omega

/-- No match starts in prose, not even in backticks that run into the next fence. -/
theorem codePattern_prose {b rest : Text} (plain : ¬fence <+: b) (nonempty : b ≠ [])
    (next : rest = [] ∨ fence <+: rest) :
    codePattern w (b ++ rest) = [] := by
  rw [List.eq_nil_iff_forall_not_mem]
  intro way member
  obtain ⟨r, same, later⟩ := mem_seq_lit.mp member
  have runs : ∃ r', r = '`' :: r' := by
    match b, next with
    | [], _ => exact absurd rfl nonempty
    | [_], .inl ended => simp [ended, fence] at same
    | [_, _], .inl ended => simp [ended, fence] at same
    | [_], .inr ⟨t, ht⟩ =>
      simp only [← ht, fence, List.cons_append, List.nil_append, List.cons.injEq, true_and] at same
      exact ⟨t, same.2.symm⟩
    | [_, _], .inr ⟨t, ht⟩ =>
      simp only [← ht, fence, List.cons_append, List.nil_append, List.cons.injEq, true_and] at same
      exact ⟨'`' :: t, same.2.2.symm⟩
    | c :: d :: e :: b, _ =>
      simp only [fence, List.cons_append, List.nil_append, List.cons.injEq] at same
      obtain ⟨rfl, rfl, rfl, -⟩ := same
      exact absurd ⟨b, rfl⟩ plain
  obtain ⟨r', rfl⟩ := runs
  have dead : seq (greedyClass w.isWord) (seq (lit ['\n']) (seq lazyGroup (lit closingFence.word)))
      ('`' :: r') = [] := by
    apply seq_eq_nil
    rw [greedyClass_stop r' w.backtick, List.forall_mem_singleton]
    apply seq_eq_nil
    rw [lit_eq_nil (by simp [List.cons_prefix_cons])]
    simp
  rw [dead] at later
  cases later

theorem codePattern_block (block : Block w) (rest : Text) :
    (codePattern w (fence ++
      (block.info ++ ('\n' :: (block.body ++ closingFence.word ++ rest))))).head? =
      some (block.body, rest) := by
  obtain ⟨others, run⟩ :=
    greedyClass_run (block.body ++ closingFence.word ++ rest) block.infoWord w.newline
  have body := head?_lazyGroup_lit rest block.bodyOpen
  have newline := head?_seq (lit_append ['\n'] (block.body ++ closingFence.word ++ rest)) body
  have info := head?_seq run newline
  exact head?_seq (lit_append fence _) info

/-- The blocks are found one after the other: every match ends where the next prose begins. -/
theorem findall_render {prose : Text} (plain : ¬fence <:+: prose) (blocks : List (Block w)) :
    findall (codePattern w) (render prose blocks) = blocks.map (·.body) := by
  induction blocks generalizing prose with
  | nil =>
    have skipped : findall (codePattern w) (prose ++ []) = findall (codePattern w) [] := by
      apply findall_skip consumes_codePattern
      intro b inside nonempty
      exact codePattern_prose (fun here => plain (here.isInfix.trans inside.isInfix))
        nonempty (.inl rfl)
    rw [List.append_nil] at skipped
    rw [render, skipped, findall, findall_nil consumes_codePattern, List.map_nil]
  | cons block blocks ih =>
    rw [render, findall_skip consumes_codePattern,
      findall_match consumes_codePattern (codePattern_block block _), ih block.plain, List.map_cons]
    intro b inside nonempty
    exact codePattern_prose (fun here => plain (here.isInfix.trans inside.isInfix)) nonempty
      (.inr (List.prefix_append fence _))

/-- `extract_code_from_string` on a text of prose and fenced blocks without an answer tag. -/
theorem extractCodeFromString_render (w : WordClass) (prose : Text) (blocks : List (Block w))
    (plain : ¬fence <:+: prose) (untagged : ¬answer.opening.word <:+: render prose blocks) :
    extractCodeFromString w (render prose blocks) = strip (joinLines (blocks.map (·.body))) := by
  have whole : tryExtractSolution (render prose blocks) = render prose blocks := by
    rw [tryExtractSolution, Tags.findall_none untagged]
    rfl
  rw [extractCodeFromString, whole, joinedCode, findall_render plain]

/-- Prose that ends in a backtick, a body that starts with a fence, and an empty body. -/
theorem extractCodeFromString_render_sample :
    extractCodeFromString asciiWord "a````py\n```x\n``` b ```\n\n```".toList = "```x".toList := by
  have rendered := extractCodeFromString_render asciiWord "a`".toList
    [⟨"py".toList, "```x".toList, " b ".toList,
      List.all_eq_true.mp (by decide), by
      decide, by decide⟩, ⟨[], [], [], by simp, by decide, by decide⟩]
    (by decide) (by decide)
  exact rendered

end Fences

end Verl.Coder1
