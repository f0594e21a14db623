import JarAudit.Main
import JarAudit.Proofs.ClassFile.RoundTrip
import JarAudit.Proofs.Reference.Extension
import JarAudit.Proofs.Reference.Agreement
import JarAudit.Proofs.ClassFile.Loop
import JarAudit.Proofs.ClassFile.History
import JarAudit.Proofs.Reference.Replacement
import JarAudit.Proofs.Reference.PlainNames
import JarAudit.Proofs.Session.Verify
import JarAudit.Proofs.Session.Accounting
import JarAudit.Proofs.Jar.ByName
import JarAudit.Proofs.Session.Provision
import JarAudit.Proofs.Session.Assembly
import JarAudit.Proofs.Session.Recursion
import JarAudit.Proofs.Session.Repetition
import JarAudit.Proofs.CommandLine.ClassCommands
import JarAudit.Proofs.Text.ModifiedUtf8.RoundTrip
import JarAudit.Proofs.Jar.Manifest
import JarAudit.Proofs.Entry.FlagHistory
import JarAudit.Proofs.Entry.ClassNames
import JarAudit.Proofs.Session.Lookup
import JarAudit.Proofs.Session.Enumerations
import JarAudit.Proofs.ClassFile.Listing
import JarAudit.Proofs.SystemClasses
import JarAudit.Proofs.ClassFile.Positions
import JarAudit.Proofs.Reference.Offsets
import JarAudit.Proofs.Zip.Directory
