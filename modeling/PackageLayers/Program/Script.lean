/-
Purpose: Scripts as commands.
Main exports: ScriptReader.next?, ScriptReader.ofChars
-/
import PackageLayers.Program.Token

namespace PackageLayers.Program.ScriptReader

/-!
Scripts are written in the language of the POSIX shell.  They are read by
recursive descent, character by character, since words may hold commands and
commands hold words.  A reader reads one complete line of commands at a time, so
that the commands above a faulty line run before the fault is found.
-/

mutual

/-- The pieces of a part of a script, of which some are read. -/
def pieces : (rounds : Nat) → Context → Word → Reading Word
  | 0, _, _ => refuse .scriptEnd none
  | rounds + 1, context, done => do
      match ← peek with
      | none =>
          match context.fault? with
          | some fault => fail fault
          | none => pure done.reverse
      | some c =>
          if context.isEndedBy c then pure done.reverse
          else
            skip
            if context.isClosedBy c then pure done.reverse
            else if c = '\\' then escape rounds context done
            else if c = '$' && context ≠ .closing then do
              let found ← dollar rounds context
              pieces rounds context (found :: done)
            else if c = '\x60' && context ≠ .closing then do
              let chars ← untilBackquote context.isQuoted rounds
              let body ← elsewhere chars (list rounds true .nothing)
              pieces rounds context (.output body context.isQuoted :: done)
            else if c = '\'' && !context.isQuoted then do
              let inner ← untilQuote rounds
              pieces rounds context
                (inner.foldl (fun done c => addChar done c true) (addMark done))
            else if c = '"' && !context.isQuoted then do
              let inner ← pieces rounds .quoted []
              pieces rounds context (addQuoted done inner)
            else further rounds context done c

/-- The pieces after a character that starts nothing. -/
def further : (rounds : Nat) → Context → Word → Char → Reading Word
  | 0, _, _, _ => refuse .scriptEnd none
  | rounds + 1, context, done, c =>
      match context, c with
      | .quotedOperand inner, '"' => pieces rounds (.quotedOperand !inner) done
      | .formula depth, '(' =>
          pieces rounds (.formula (depth + 1)) (addChar done c true)
      | .formula 0, ')' => do
          if (← peek) = some ')' then
            skip
            pure done.reverse
          else pieces rounds context (addChar done c true)
      | .formula (depth + 1), ')' =>
          pieces rounds (.formula depth) (addChar done c true)
      | _, _ => pieces rounds context (addChar done c context.isQuoted)

/-- The pieces after a backslash. -/
def escape : (rounds : Nat) → Context → Word → Reading Word
  | 0, _, _ => refuse .scriptEnd none
  | rounds + 1, context, done => do
      match ← take with
      | none => pieces rounds context (addChar done '\\' true)
      | some c =>
          if context.isEscaped c then
            pieces rounds context (addChar done c true)
          else
            pieces rounds context (addChar (addChar done '\\' true) c true)

/-- What a dollar sign begins. -/
def dollar : (rounds : Nat) → Context → Reading Piece
  | 0, _ => refuse .scriptEnd none
  | rounds + 1, context => do
      match ← peek with
      | some '(' =>
          skip
          if (← peek) = some '(' then
            skip
            let source ← pieces rounds (.formula 0) []
            pure (.formula source context.isQuoted)
          else
            let outer ← get
            set { outer with returned := none, awaited := [] }
            let body ← list rounds true .nothing
            expect rounds ")"
            modify fun reader => { reader with awaited := outer.awaited }
            pure (.output body context.isQuoted)
      | some '\x7b' =>
          skip
          parameter rounds context
      | some c =>
          if startsName c then
            let name ← takeWhile isNameChar rounds
            pure (.parameter (String.ofList name) .plain [] context.isQuoted)
          else if c.isDigit || specialParameters.contains c then
            skip
            pure (.parameter c.toString .plain [] context.isQuoted)
          else pure (.text "$" context.isQuoted)
      | none => pure (.text "$" context.isQuoted)

/-- A parameter in braces, after the opening one. -/
def parameter : (rounds : Nat) → Context → Reading Piece
  | 0, _ => refuse .scriptEnd none
  | rounds + 1, context => do
      match ← peek with
      | none => bad rounds context
      | some c =>
          if startsName c then
            let name ← takeWhile isNameChar rounds
            changed rounds context (String.ofList name)
          else if c.isDigit then
            let name ← takeWhile Char.isDigit rounds
            changed rounds context (String.ofList name)
          else if c = '#' then
            skip
            measured rounds context
          else if specialParameters.contains c then
            skip
            changed rounds context c.toString
          else
            if c ≠ '\x7d' then
              modify fun reader => { reader with rest := reader.rest.drop 1 }
            bad rounds context

/-- A parameter in braces, after a number sign. -/
def measured : (rounds : Nat) → Context → Reading Piece
  | 0, _ => refuse .scriptEnd none
  | rounds + 1, context => do
      let size (name : String) : Piece :=
        .parameter name .length [] context.isQuoted
      match ← peek with
      | none => bad rounds context
      | some c =>
          if isNameChar c then
            let test := if c.isDigit then Char.isDigit else isNameChar
            let name ← takeWhile test rounds
            if (← peek) = some '\x7d' then
              skip
              pure (size (String.ofList name))
            else bad rounds context
          else
            let reader ← get
            skip
            let after ← peek
            if c ≠ '\x7d' && after = some '\x7d' &&
                specialParameters.contains c then
              skip
              pure (size c.toString)
            else
              set reader
              changed rounds context "#"

/-- A parameter in braces, after its name. -/
def changed : (rounds : Nat) → Context → String → Reading Piece
  | 0, _, _ => refuse .scriptEnd none
  | rounds + 1, context, name => do
      let next ← peek
      modify fun reader => { reader with rest := reader.rest.drop 1 }
      match next with
      | none => bad rounds context
      | some '\x7d' => pure (.parameter name .plain [] context.isQuoted)
      | some ':' =>
          match (← peek).bind (change? true) with
          | some change =>
              skip
              operand rounds context name change false
          | none => bad rounds context
      | some '%' =>
          let longest := (← peek) = some '%'
          if longest then skip
          operand rounds context name (.dropBack longest) true
      | some '#' =>
          let longest := (← peek) = some '#'
          if longest then skip
          operand rounds context name (.dropFront longest) true
      | some c =>
          match change? false c with
          | some change => operand rounds context name change false
          | none => bad rounds context

/-- A parameter with the word that changes its value. -/
def operand : (rounds : Nat) → Context → String → Change → (isPattern : Bool) →
    Reading Piece
  | 0, _, _, _, _ => refuse .scriptEnd none
  | rounds + 1, context, name, change, isPattern => do
      let word ← pieces rounds (context.ofOperand isPattern) []
      pure (.parameter name change word context.isQuoted)

/-- What in braces is no parameter, up to the closing one. -/
def bad : (rounds : Nat) → Context → Reading Piece
  | 0, _ => refuse .scriptEnd none
  | rounds + 1, context => do
      let _ ← pieces rounds (context.ofOperand false) []
      pure .badSubstitution

/-- The here-documents that begin here. -/
def readDocuments : (rounds : Nat) → Reading Unit
  | 0 => refuse .scriptEnd none
  | rounds + 1 => do
      let reader ← get
      match reader.awaited with
      | [] => pure ()
      | document :: others =>
          let (body, after) := linesUpTo document false rounds reader.rest
          set { reader with awaited := others }
          let word ←
            if document.quoted then pure [.text (String.ofList body) true]
            else elsewhere body (pieces rounds .document [])
          let size := reader.rest.length - after.length
          modify fun now =>
            { now with
              rest := after
              line := reader.line + (reader.rest.take size).countP (· = '\n')
              documents := (document.place, word) :: now.documents }
          readDocuments rounds

/-- The next token as it is written. -/
def written : (rounds : Nat) → Reading Token
  | 0 => refuse .scriptEnd none
  | rounds + 1 => do
      skipIdle rounds
      match ← peek with
      | none =>
          readDocuments rounds
          pure .scriptEnd
      | some '\n' =>
          skip
          readDocuments rounds
          pure .lineEnd
      | some c =>
          if c = '<' then redirectionSign 0
          else if c = '>' then redirectionSign 1
          else
            match ← sign? ["&&", "&", "||", "|", ";;", ";", "(", ")"] with
            | some text => pure (.sign text)
            | none =>
                let word ← pieces rounds .bare []
                match word, (← get).rest.head? with
                | [.text content false], some next =>
                    if (next = '<' || next = '>') && content.length = 1 &&
                        content.toList.all Char.isDigit then
                      redirectionSign (content.toNat?.getD 0)
                    else pure (.word word false)
                | _, _ => pure (.word word (word.any isQuotedPiece))

/-- The next token; `keywords` says whether it may be a keyword, and `skips`
whether line ends in front of it mean nothing. -/
def next : (rounds : Nat) → (keywords skips : Bool) → Reading Token
  | 0, _, _ => refuse .scriptEnd none
  | rounds + 1, keywords, skips => do
      let reader ← get
      let token ←
        match reader.returned with
        | some token => do
            set { reader with returned := none }
            pure token
        | none => written rounds
      match token with
      | .lineEnd => if skips then next rounds keywords skips else pure token
      | _ => pure (if keywords then token.asKeyword else token)

/-- Go over a sign or keyword that has to come next. -/
def expect : (rounds : Nat) → String → Reading Unit
  | 0, _ => refuse .scriptEnd none
  | rounds + 1, wanted => do
      let token ← next rounds false false
      if token.isText wanted then pure ()
      else refuse token (some (Token.inMarks wanted))

/-- A list of commands after those that are read, up to what ends it; it may end
at once if `mayEnd`. -/
def list : (rounds : Nat) → (mayEnd : Bool) → Command → Reading Command
  | 0, _, _ => refuse .scriptEnd none
  | rounds + 1, mayEnd, done => do
      let token ← next rounds true true
      giveBack token
      match token with
      | .scriptEnd => pure done
      | _ =>
          if mayEnd && token.endsList then pure done
          else
            let command ← andOr rounds
            let after ← next rounds false false
            match after with
            | .sign "&" =>
                list rounds true (done.andThen (.background command))
            | .sign ";" => list rounds true (done.andThen command)
            | .lineEnd =>
                giveBack after
                list rounds true (done.andThen command)
            | _ =>
                giveBack after
                pure (done.andThen command)

/-- Pipelines between which the status decides. -/
def andOr : (rounds : Nat) → Reading Command
  | 0 => refuse .scriptEnd none
  | rounds + 1 => do
      let first ← pipeline rounds false
      andOrAfter rounds first

/-- Further pipelines after a command. -/
def andOrAfter : (rounds : Nat) → Command → Reading Command
  | 0, _ => refuse .scriptEnd none
  | rounds + 1, first => do
      let token ← next rounds false false
      match token with
      | .sign "&&" => do
          let second ← pipeline rounds true
          andOrAfter rounds (.both first second)
      | .sign "||" => do
          let second ← pipeline rounds true
          andOrAfter rounds (.either first second)
      | _ =>
          giveBack token
          pure first

/-- A pipeline, which may be negated. -/
def pipeline : (rounds : Nat) → (skips : Bool) → Reading Command
  | 0, _ => refuse .scriptEnd none
  | rounds + 1, skips => do
      let token ← next rounds true skips
      if token.isText "!" then
        let first ← command rounds false
        let all ← pipedAfter rounds first
        pure (.negated all)
      else
        giveBack token
        let first ← command rounds false
        pipedAfter rounds first

/-- Further commands of a pipeline. -/
def pipedAfter : (rounds : Nat) → Command → Reading Command
  | 0, _ => refuse .scriptEnd none
  | rounds + 1, first => do
      let token ← next rounds false false
      match token with
      | .sign "|" => do
          let second ← command rounds true
          let later ← pipedAfter rounds second
          pure (.pipe first later)
      | _ =>
          giveBack token
          pure first

/-- A command. -/
def command : (rounds : Nat) → (skips : Bool) → Reading Command
  | 0, _ => refuse .scriptEnd none
  | rounds + 1, skips => do
      let line := (← get).line
      let token ← next rounds true skips
      match token with
      | .keyword "if" => do
          let found ← conditional rounds
          redirected rounds line found
      | .keyword "while" => do
          let found ← loop rounds true
          redirected rounds line found
      | .keyword "until" => do
          let found ← loop rounds false
          redirected rounds line found
      | .keyword "for" => do
          let found ← each rounds line
          redirected rounds line found
      | .keyword "case" => do
          let found ← choice rounds line
          redirected rounds line found
      | .sign "(" => do
          let body ← list rounds false .nothing
          expect rounds ")"
          redirected rounds line (.subshell body)
      | .keyword "\x7b" => do
          let body ← list rounds false .nothing
          expect rounds "\x7d"
          redirected rounds line body
      | .word _ _ | .redirection _ _ =>
          giveBack token
          let line := (← get).line
          simple rounds line [] [] []
      | _ => refuse token none

/-- A condition, after its first keyword. -/
def conditional : (rounds : Nat) → Reading Command
  | 0 => refuse .scriptEnd none
  | rounds + 1 => do
      let test ← list rounds false .nothing
      expect rounds "then"
      let yes ← list rounds false .nothing
      let token ← next rounds false false
      if token.isText "elif" then
        let no ← conditional rounds
        pure (.conditional test yes no)
      else if token.isText "else" then
        let no ← list rounds false .nothing
        expect rounds "fi"
        pure (.conditional test yes no)
      else
        giveBack token
        expect rounds "fi"
        pure (.conditional test yes .nothing)

/-- A loop, after its first keyword. -/
def loop : (rounds : Nat) → (wanted : Bool) → Reading Command
  | 0, _ => refuse .scriptEnd none
  | rounds + 1, wanted => do
      let test ← list rounds false .nothing
      expect rounds "do"
      let body ← list rounds false .nothing
      expect rounds "done"
      pure (.loop wanted test body)

/-- A loop over words, after its first keyword. -/
def each : (rounds line : Nat) → Reading Command
  | 0, _ => refuse .scriptEnd none
  | rounds + 1, line => do
      let token ← next rounds false false
      match token with
      | .word [.text name false] false =>
          if !isName name then fail .badLoopVariable
          let token ← next rounds true true
          let words ←
            if token.isText "in" then words rounds []
            else
              if !token.isText ";" then giveBack token
              pure [Word.allArguments]
          let token ← next rounds true true
          if !token.isText "do" then refuse token (some (Token.inMarks "do"))
          let body ← list rounds false .nothing
          expect rounds "done"
          pure (.each line name words body)
      | _ => fail .badLoopVariable

/-- The words of a loop, up to the end of their line. -/
def words : (rounds : Nat) → List Word → Reading (List Word)
  | 0, _ => refuse .scriptEnd none
  | rounds + 1, done => do
      let token ← next rounds false false
      match token with
      | .word pieces _ => words rounds (pieces :: done)
      | .lineEnd | .sign ";" => pure done.reverse
      | _ => refuse token none

/-- A choice, after its first keyword. -/
def choice : (rounds line : Nat) → Reading Command
  | 0, _ => refuse .scriptEnd none
  | rounds + 1, line => do
      let token ← next rounds false false
      match token with
      | .word subject _ => do
          let token ← next rounds true true
          if !token.isText "in" then refuse token (some (Token.inMarks "in"))
          let branches ← branches rounds []
          pure (.choice line subject branches)
      | _ => refuse token (some "word")

/-- The branches of a choice, up to its end. -/
def branches : (rounds : Nat) → List (List Word × Command) →
    Reading (List (List Word × Command))
  | 0, _ => refuse .scriptEnd none
  | rounds + 1, done => do
      let token ← next rounds true true
      if token.isText "esac" then pure done.reverse
      else
        let token ←
          if token.isText "(" then next rounds false false else pure token
        let patterns ← patterns rounds token []
        let body ← list rounds true .nothing
        let token ← next rounds true true
        let done := (patterns, body) :: done
        if token.isText "esac" then pure done.reverse
        else if token.isText ";;" then branches rounds done
        else refuse token (some (Token.inMarks ";;"))

/-- The patterns of a branch, given the first token, up to a bracket. -/
def patterns : (rounds : Nat) → Token → List Word → Reading (List Word)
  | 0, _, _ => refuse .scriptEnd none
  | rounds + 1, token, done => do
      let pattern ←
        match token with
        | .word pieces _ => pure pieces
        | .keyword text => pure [.text text false]
        | _ => pure []
      let after ← next rounds false false
      if after.isText "|" then
        let token ← next rounds false false
        patterns rounds token (pattern :: done)
      else if after.isText ")" then pure (pattern :: done).reverse
      else refuse after (some (Token.inMarks ")"))

/-- A compound command with the redirections after it. -/
def redirected : (rounds line : Nat) → Command → Reading Command
  | 0, _, _ => refuse .scriptEnd none
  | rounds + 1, line, body => do
      let found ← redirections rounds []
      pure (if found.isEmpty then body else .redirected line body found)

/-- The redirections that come next, after some that are read. -/
def redirections : (rounds : Nat) → List Redirection →
    Reading (List Redirection)
  | 0, _ => refuse .scriptEnd none
  | rounds + 1, done => do
      let token ← next rounds true false
      match token with
      | .redirection channel sign => do
          let found ← redirection rounds channel sign
          redirections rounds (found :: done)
      | _ =>
          giveBack token
          pure done.reverse

/-- A redirection, after its sign. -/
def redirection : (rounds : Nat) → (channel : Nat) → (sign : String) →
    Reading Redirection
  | 0, _, _ => refuse .scriptEnd none
  | rounds + 1, channel, sign => do
      if sign = "<<" || sign = "<<-" then
        skipIdle rounds
        let closing ← pieces rounds .closing []
        if closing.isEmpty then
          let token ← next rounds false false
          refuse token none
        let reader ← get
        let document : AwaitedDocument :=
          { place := reader.places
            closing := (plainText closing).toList
            dropsTabs := sign = "<<-"
            quoted := closing.any isQuotedPiece }
        set
          { reader with
            places := reader.places + 1
            awaited := reader.awaited ++ [document] }
        pure (.document channel reader.places)
      else
        let token ← next rounds false false
        match token with
        | .word name _ =>
            match sign with
            | "<" => pure (.file channel .read name)
            | ">>" => pure (.file channel .append name)
            | "<>" => pure (.file channel .readWrite name)
            | "<&" | ">&" => pure (.file channel .duplicate name)
            | _ => pure (.file channel .write name)
        | _ => refuse token none

/-- A command of words, after those that are read, last first. -/
def simple : (rounds line : Nat) → List (String × Word) → List Word →
    List Redirection → Reading Command
  | 0, _, _, _, _ => refuse .scriptEnd none
  | rounds + 1, line, assignments, words, found => do
      let token ← next rounds false false
      match token with
      | .word pieces _ =>
          match if words.isEmpty then assignment? pieces else none with
          | some assigned =>
              simple rounds line (assigned :: assignments) words found
          | none => simple rounds line assignments (pieces :: words) found
      | .redirection channel sign => do
          let made ← redirection rounds channel sign
          simple rounds line assignments words (made :: found)
      | _ =>
          match token, assignments, words, found with
          | .sign "(", [], [pieces], [] => do
              expect rounds ")"
              let name := plainText pieces
              let isPlain :=
                match pieces with
                | [.text _ false] => true
                | _ => false
              if !isPlain || !isName name ||
                  specialUtilities.contains name then
                fail .badFunctionName
              let line := (← get).line
              let body ← command rounds true
              pure (.define line name body)
          | _, _, _, _ =>
              giveBack token
              pure
                (.simple line assignments.reverse words.reverse found.reverse)

end

/-- The commands of a complete line after those that are read; none at the end
of the script. -/
def wholeLine : (rounds : Nat) → Option Command → Reading (Option Command)
  | 0, _ => refuse .scriptEnd none
  | rounds + 1, done => do
      let token ← next rounds true false
      match token with
      | .lineEnd => pure (some (done.getD .nothing))
      | .scriptEnd =>
          giveBack token
          pure done
      | _ =>
          giveBack token
          let command ← andOr rounds
          let after ← next rounds false false
          let all (command : Command) : Option Command :=
            some ((done.getD .nothing).andThen command)
          match after with
          | .sign "&" => wholeLine rounds (all (.background command))
          | .sign ";" => wholeLine rounds (all command)
          | .lineEnd | .scriptEnd =>
              giveBack after
              wholeLine rounds (all command)
          | _ => refuse after none

/-- The rounds that reading a script takes at most. -/
def rounds (reader : ScriptReader) : Nat :=
  20 * reader.rest.length + 100

/-- The next complete line of commands, and the reader after it; none at the end
of the script. -/
def next? (reader : ScriptReader) :
    Except ScriptFault (Option Command × ScriptReader) :=
  (wholeLine reader.rounds none).run reader

/-- The reader at the start of a script. -/
def ofChars (chars : List Char) : ScriptReader :=
  { rest := chars }

end PackageLayers.Program.ScriptReader
