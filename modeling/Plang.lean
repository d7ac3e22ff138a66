import Plang.Basic.Diagnostic
import Plang.Lex.IncludeNesting
import Plang.Lex.SwitchAgreement
import Plang.Lex.SelectedRegions
import Plang.Runtime.ConsoleOutput
import Plang.Runtime.FinalLine
import Plang.Runtime.InputForms
import Plang.Runtime.TurboMode
import Plang.Runtime.ShortStringStore
import Plang.Runtime.StringTransfer
import Plang.Sema.ResultFlow
import Plang.Runtime.ExitSequence
import Plang.CodeGen.SetOperators
import Plang.CodeGen.ForIteration
import Plang.CodeGen.Promotion
import Plang.CodeGen.FoldAgreement
import Plang.CodeGen.BroughtUp
import Plang.Frontend.AllOrNothing
import Plang.Sema.ObjectHierarchy
import Plang.CodeGen.LegalGotos
import Plang.CodeGen.LayoutAgreement
import Plang.Runtime.IntegerPower
import Plang.Runtime.Substring
import Plang.Runtime.ValPosition
import Plang.Runtime.TurboLines
import Plang.Runtime.NumberScanners
import Plang.Runtime.TokenReading
import Plang.Runtime.BlockTransfer
import Plang.Runtime.DirectFile
import Plang.Runtime.DirectAccess
import Plang.Runtime.DirectIndex
import Plang.Parse.NameSets
import Plang.Parse.NameScopes
import Plang.Runtime.OutputFamilies
import Plang.Basic.CatalogEntries
import Plang.CodeGen.ConformantCopies
import Plang.Parse.IntLiterals
import Plang.Lex.StringConstants
import Plang.CodeGen.Division
import Plang.CodeGen.CaseChain
import Plang.CodeGen.SetIteration
import Plang.Sema.Reachability
import Plang.Library.Fuel
import Plang.Parse.ExprParser
import Plang.Parse.ExprWriting
import Plang.Parse.ExprBeginnings
import Plang.Parse.ExprErrors
import Plang.Parse.ExprReading
import Plang.Parse.ExprFactors
import Plang.Parse.ExprSelections
import Plang.Parse.ExprNames
import Plang.Parse.ExprSets
import Plang.Parse.ExprValues
import Plang.Parse.ExprLevels
import Plang.Parse.ExprParts
import Plang.Parse.ExprRoundTrip
import Plang.CodeGen.PackUnpack
import Plang.CodeGen.InitialConstants
import Plang.CodeGen.ConformantChains
import Plang.CodeGen.ExtentForms
import Plang.CodeGen.StatementProgress
import Plang.Parse.StmtWriting
import Plang.Runtime.KeyDecoding
import Plang.Runtime.SearchIndependence
import Plang.Parse.StmtPaths
import Plang.Parse.StmtRoundTrip
