import Untangle.Cli.FileTable
import Untangle.Json.Read
import Untangle.Main
import Untangle.Proofs.Base64Register
import Untangle.Proofs.CaseSelection
import Untangle.Proofs.CountedRotation
import Untangle.Proofs.DanglingReferences
import Untangle.Proofs.DeadCodeScopes
import Untangle.Proofs.DispatcherNames
import Untangle.Proofs.EmptiedDeclarations
import Untangle.Proofs.EndedChains
import Untangle.Proofs.ExposedReferences
import Untangle.Proofs.Fingerprints
import Untangle.Proofs.Interfaces
import Untangle.Proofs.LooseParsing
import Untangle.Proofs.NumericTexts
import Untangle.Proofs.OptionMerging
import Untangle.Proofs.PlainNames
import Untangle.Proofs.RangeCover
import Untangle.Proofs.ScriptOperators
import Untangle.Proofs.SequencesSettled
