import ScriptToC.Compile
import ScriptToC.Declared.History
import ScriptToC.Main
import ScriptToC.Proofs.BlankLines
import ScriptToC.Proofs.BrokenRules
import ScriptToC.Proofs.CursorDiscipline
import ScriptToC.Proofs.DeclareOnce
import ScriptToC.Proofs.Failing
import ScriptToC.Proofs.Histories
import ScriptToC.Proofs.Indentation
import ScriptToC.Proofs.LayoutRejects
import ScriptToC.Proofs.LineEndings
import ScriptToC.Proofs.MaximalMunch
import ScriptToC.Proofs.Precedence
import ScriptToC.Proofs.PrintedLines
import ScriptToC.Proofs.ReadTrees
import ScriptToC.Proofs.Readback
import ScriptToC.Proofs.Reindenting
import ScriptToC.Proofs.Reports
import ScriptToC.Proofs.ResumedLexing
import ScriptToC.Proofs.ResumedReading
import ScriptToC.Proofs.Retranslation
import ScriptToC.Proofs.TailFunctions
import ScriptToC.Proofs.ToldDeclarations
import ScriptToC.Proofs.ViablePrefix
