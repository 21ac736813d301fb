import Mathlib.Data.List.Forall2
import ClientRegistry.Generation.Compilation
import ClientRegistry.Proofs.Shell.Quoting
import ClientRegistry.Proofs.Shell.Scripts

/-!
# What a shell reads of the compiler's call

The call is put together from four texts that are chosen independently. A shell reads the tokens of the
compiler, the four arguments, each as one word, and the tokens of the flags: at no seam do tokens merge,
and no character of a path is taken for anything but itself.
-/

set_option autoImplicit false

namespace ClientRegistry

namespace Shell

/-- In every session the word is this one argument. -/
def IsArgument (raw : List Char) (arg : String) : Prop :=
  ∀ (substitute : List Char → Run ByteArray) (s : Session),
    (expandWords substitute [raw]).run.run s = (.ok [arg], s)

theorem isArgument_of_value? {raw : List Char} {arg : String} (hRaw : raw ≠ [])
    (h : value? raw = some arg.toList) : IsArgument raw arg := by
  intro substitute s
  rw [expandWords_of_value? substitute h hRaw, String.ofList_toList]

structure WordOf (text arg : String) : Prop where
  word : Lexer.IsWord text.toList
  argument : IsArgument text.toList arg

theorem wordOf_of_value? {text arg : String} (hWord : Lexer.IsWord text.toList)
    (h : value? text.toList = some arg.toList) : WordOf text arg :=
  ⟨hWord, isArgument_of_value? hWord.1 h⟩

theorem wordOf_plain {arg : String} (hSome : arg ≠ "") (h : arg.toList.all isPlain = true)
    (hNone : '\\' ∉ arg.toList) : WordOf arg arg := by
  apply wordOf_of_value?
  · exact Lexer.isWord_plain (by simpa using hSome) h hNone
  · rw [value?_plain h, unescape_of_not_mem hNone]

theorem wordOf_quote {arg : String} (hNone : '\\' ∉ arg.toList) : WordOf (quote arg) arg := by
  by_cases hPlain : arg ≠ "" ∧ arg.toList.all isPlain = true
  · rw [quote_of_plain hPlain.1 hPlain.2]
    exact wordOf_plain hPlain.1 hPlain.2 hNone
  · have hQuoted : arg ≠ "" → arg.toList.all isPlain = false := fun hSome =>
      Bool.eq_false_iff.mpr fun h => hPlain ⟨hSome, h⟩
    have hText := toList_quote hQuoted
    apply wordOf_of_value?
    · rw [hText]
      exact Lexer.isWord_quoted arg.toList
    · rw [hText]
      refine value?_of_valueWithin (by simp) (valueWithin_quoted arg.toList ?_)
      simp only [List.length_append, List.length_cons, List.length_nil]
      omega

end Shell

namespace Compiler

open Shell

def argumentWords (protoPath template : Path) : List String :=
  ["generate", quote protoPath.text, "--template", quote template.text]

theorem wordOf_argumentWords {protoPath template : Path} (hProto : '\\' ∉ protoPath.text.toList)
    (hTemplate : '\\' ∉ template.text.toList) :
    List.Forall₂ WordOf (argumentWords protoPath template)
      ["generate", protoPath.text, "--template", template.text] :=
  .cons (wordOf_plain (by decide) (by decide) (by decide)) <| .cons (wordOf_quote hProto) <|
    .cons (wordOf_plain (by decide) (by decide) (by decide)) <| .cons (wordOf_quote hTemplate) .nil

theorem isWord_argumentWords {protoPath template : Path} (hProto : '\\' ∉ protoPath.text.toList)
    (hTemplate : '\\' ∉ template.text.toList) :
    ∀ w ∈ (argumentWords protoPath template).map String.toList, Lexer.IsWord w := by
  intro w hw
  obtain ⟨text, hText, rfl⟩ := List.mem_map.mp hw
  obtain ⟨i, hi, rfl⟩ := List.getElem_of_mem hText
  exact ((wordOf_argumentWords hProto hTemplate).get hi hi).word

theorem toList_commandLine (compiler flags : String) (protoPath template : Path) :
    (commandLine compiler protoPath template flags).toList =
      compiler.toList ++ ((argumentWords protoPath template).map String.toList).flatMap (' ' :: ·) ++
        if Text.trim flags = "" then [] else ' ' :: (Text.trim flags).toList := by
  have hGenerate : " generate ".toList = ' ' :: ("generate".toList ++ [' ']) := by decide
  have hTemplate : " --template ".toList = ' ' :: ("--template".toList ++ [' ']) := by decide
  unfold commandLine argumentWords
  simp only [String.toList_append, apply_ite String.toList, List.map_cons, List.map_nil, List.flatMap_cons,
    List.flatMap_nil, hGenerate, hTemplate]
  simp

/-- The tokens of a call are those of the compiler, one word for each of the four arguments, and those of the
flags. -/
theorem tokens_commandLine {compiler flags : String} {protoPath template : Path} {ts us : List Token}
    (hCompiler : Complete compiler.toList ts) (hTrim : Text.trim flags = flags)
    (hFlags : (readScript flags.toList).finish? = some us) (hProto : '\\' ∉ protoPath.text.toList)
    (hTemplate : '\\' ∉ template.text.toList) :
    ∃ words, List.Forall₂ IsArgument words ["generate", protoPath.text, "--template", template.text] ∧
      (readScript (commandLine compiler protoPath template flags).toList).finish? =
        some (ts ++ words.map .word ++ us) := by
  have hWords := hCompiler.words (isWord_argumentWords hProto hTemplate)
  refine ⟨(argumentWords protoPath template).map String.toList, ?_, ?_⟩
  · exact List.forall₂_map_left_iff.mpr ((wordOf_argumentWords hProto hTemplate).imp fun _ _ h => h.argument)
  · rw [toList_commandLine, hTrim]
    by_cases hNone : flags = ""
    · subst hNone
      obtain rfl : [] = us := Option.some.inj hFlags
      rw [if_pos rfl, List.append_nil, List.append_nil]
      exact hWords.tokens
    · rw [if_neg hNone]
      exact hWords.finish?_append hFlags

/-- Paths that look like ends of commands, substitutions, comments and patterns, between a compiler with an
operator of its own and flags with a redirection and a comment. -/
theorem tokens_commandLine_hostile :
    ∃ words, List.Forall₂ IsArgument words ["generate", "a'; rm -rf \n#*", "--template", "$(gen)/t.yaml"] ∧
      (readScript (commandLine "cd 'my app' && npx buf" ⟨"a'; rm -rf \n#*"⟩ ⟨"$(gen)/t.yaml"⟩
        "--debug >'log file' # all of it").toList).finish? =
        some ([.word "cd".toList, .word "'my app'".toList, .operator "&&".toList, .word "npx".toList,
            .word "buf".toList] ++ words.map .word ++
          [.word "--debug".toList, .operator ">".toList, .word "'log file'".toList]) :=
  tokens_commandLine ⟨by decide, by decide, rfl⟩ (by decide) (by decide) (by decide) (by decide)

end Compiler

end ClientRegistry
